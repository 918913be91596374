import Procedural.Layout.Java
import Procedural.Proofs.Text.Numerals
import Procedural.Proofs.Text.QuotedText

/-!
# How Java divides a text

Java does not read the pieces that an expression is written with, but the characters of the text:
from the left it takes the longest lexeme that stands there.  A word of Java has letters, digits,
`_` and `$`, so a `-` inside a name of a program ends the word before it and is a sign of its own.

Numbers are digits here, with or without a point.  The other numbers of Java, escapes by number,
comments and names with letters beyond ASCII are left out: a literal of a program is not written
with them, and what Java makes of a name with such a part is not that name anyway.
-/

namespace Procedural

namespace Java

inductive Bracket where
  | round
  | square
  | curly
  deriving DecidableEq, Repr

/-- What an expression is made of in the end: names, and words or quoted texts for values. -/
inductive Leaf where
  | name (text : String)
  | value (text : String)
  deriving DecidableEq, Repr

/-- The lexemes of Java; those that cannot stand in an expression are not distinguished. -/
inductive Lexeme where
  | leaf (leaf : Leaf)
  | operator (op : BinaryOp)
  | opening (kind : Bracket)
  | closing (kind : Bracket)
  | comma
  | other
  deriving DecidableEq, Repr

def isSpace (c : Char) : Bool :=
  c == ' ' || c == '\t' || c == '\n' || c == '\r' || c == '\x0c'

/-- The characters of numbers and of names; points stand between the parts of both. -/
def isWordCharacter (c : Char) : Bool :=
  c.isAlphanum || c == '_' || c == '$' || c == '.'

/-- Words that Java keeps for itself. -/
def reserved : List String :=
  ["_", "abstract", "assert", "boolean", "break", "byte", "case", "catch", "char", "class",
    "const", "continue", "default", "do", "double", "else", "enum", "extends", "final",
    "finally", "float", "for", "goto", "if", "implements", "import", "instanceof", "int",
    "interface", "long", "native", "new", "package", "private", "protected", "public",
    "return", "short", "static", "strictfp", "super", "switch", "synchronized", "throw",
    "throws", "transient", "try", "void", "volatile", "while"]

/-- Words that stand for a value. -/
def constants : List String :=
  ["true", "false", "null", "this"]

def isIdentifier (cs : List Char) : Bool :=
  cs.head?.any (fun c => !c.isDigit) && !(reserved ++ constants).contains (String.ofList cs)

/-- Identifiers with points between them. -/
def isName (cs : List Char) : Bool :=
  cs.all isWordCharacter && (cs.splitOn '.').all isIdentifier

/-- Digits, with a point among them or without. -/
def isNumber (cs : List Char) : Bool :=
  let parts := cs.splitOn '.'
  parts.length ≤ 2 && parts.all fun part => !part.isEmpty && part.all Char.isDigit

/-- What a run of word characters is. -/
def wordLexeme (cs : List Char) : Lexeme :=
  if isName cs then .leaf (.name (String.ofList cs))
  else if isNumber cs || constants.contains (String.ofList cs) then
    .leaf (.value (String.ofList cs))
  else .other

/-- The characters that may follow a backslash. -/
def isEscape (c : Char) : Bool :=
  Quoted.isEscape c || c == 'f' || c == 's'

/-- What is quoted up to the next quote that has no backslash, and what follows that quote. -/
def untilQuote : List Char → Option (List Char × List Char)
  | [] => none
  | '\\' :: c :: rest =>
      if isEscape c then (untilQuote rest).map fun (body, rest) => ('\\' :: c :: body, rest)
      else none
  | c :: rest =>
      if c = '"' then some ([], rest)
      else if c = '\\' || Scan.isLineBreak c then none
      else (untilQuote rest).map fun (body, rest) => (c :: body, rest)

/-- A string behind its first quote.  Three quotes begin a text of several lines, which no
expression has. -/
def stringLexeme (cs : List Char) : Option (Lexeme × List Char) :=
  if ['"', '"'].isPrefixOf cs then none
  else (untilQuote cs).map fun (body, rest) =>
    (.leaf (.value (String.ofList ('"' :: body ++ ['"']))), rest)

/-- A character of Java has sixteen bits. -/
def isUnit (c : Char) : Bool :=
  c.toNat < 0x10000

/-- A character literal behind its first quote. -/
def characterLexeme : List Char → Option (Lexeme × List Char)
  | '\\' :: c :: '\'' :: rest =>
      if isEscape c then some (.leaf (.value (String.ofList ['\'', '\\', c, '\''])), rest)
      else none
  | c :: '\'' :: rest =>
      if c = '\'' || c = '\\' || Scan.isLineBreak c || !isUnit c then none
      else some (.leaf (.value (String.ofList ['\'', c, '\''])), rest)
  | _ => none

/-- The operators of one character, each with the characters that make another sign of it. -/
def singleSign : Char → Option (BinaryOp × List Char)
  | '<' => some (.less, ['<', '='])
  | '>' => some (.greater, ['>', '='])
  | '+' => some (.add, ['+', '='])
  | '-' => some (.subtract, ['-', '=', '>'])
  | '*' => some (.multiply, ['='])
  | '/' => some (.divide, ['=', '/', '*'])
  | '^' => some (.power, ['='])
  | _ => none

/-- The longest sign that begins with a character. -/
def signLexeme : Char → List Char → Lexeme × List Char
  | '(', rest => (.opening .round, rest)
  | ')', rest => (.closing .round, rest)
  | '[', rest => (.opening .square, rest)
  | ']', rest => (.closing .square, rest)
  | '\x7b', rest => (.opening .curly, rest)
  | '\x7d', rest => (.closing .curly, rest)
  | ',', rest => (.comma, rest)
  | '|', '|' :: rest => (.operator .or, rest)
  | '&', '&' :: rest => (.operator .and, rest)
  | '=', '=' :: rest => (.operator .equal, rest)
  | '!', '=' :: rest => (.operator .unequal, rest)
  | c, rest =>
      match singleSign c with
      | none => (.other, rest)
      | some (op, further) =>
          if rest.head?.any further.contains then (.other, rest.tail) else (.operator op, rest)

/-- The longest lexeme that a text begins with, and what follows it. -/
def scan : List Char → Option (Lexeme × List Char)
  | [] => none
  | c :: rest =>
      if isSpace c then none
      else if isWordCharacter c then
        some (wordLexeme (c :: rest.takeWhile isWordCharacter), rest.dropWhile isWordCharacter)
      else if c = '"' then stringLexeme rest
      else if c = '\'' then characterLexeme rest
      else some (signLexeme c rest)

/-- No sign is a leaf. -/
theorem sign_ne_leaf {leaf : Leaf} (c : Char) (rest : List Char) :
    (signLexeme c rest).1 ≠ .leaf leaf := by
  unfold signLexeme
  split
  all_goals first | exact Lexeme.noConfusion | skip
  split
  · exact Lexeme.noConfusion
  · split <;> exact Lexeme.noConfusion

/-- Java divides a text into lexemes. -/
inductive Lexes : List Char → List Lexeme → Prop where
  | nil : Lexes [] []
  | space {c : Char} {cs : List Char} {lexemes : List Lexeme} :
      isSpace c = true → Lexes cs lexemes → Lexes (c :: cs) lexemes
  | lexeme {cs rest : List Char} {lexeme : Lexeme} {lexemes : List Lexeme} :
      scan cs = some (lexeme, rest) → Lexes rest lexemes → Lexes cs (lexeme :: lexemes)

/-- A text is divided in one way at most. -/
theorem Lexes.unique {cs : List Char} {lexemes lexemes' : List Lexeme}
    (lexes : Lexes cs lexemes) (lexes' : Lexes cs lexemes') : lexemes = lexemes' := by
  induction lexes generalizing lexemes' with
  | nil =>
      cases lexes' with
      | nil => rfl
      | lexeme scanned _ => cases scanned
  | space blank _ induction =>
      cases lexes' with
      | space _ further => exact induction further
      | lexeme scanned _ =>
          rw [scan, if_pos blank] at scanned
          cases scanned
  | lexeme scanned _ induction =>
      cases lexes' with
      | nil => cases scanned
      | space blank _ =>
          rw [scan, if_pos blank] at scanned
          cases scanned
      | lexeme scanned' further =>
          rw [scanned] at scanned'
          cases scanned'
          rw [induction further]

/-- A text begins with nothing that would change the lexeme before it. -/
def Delimited (rest : List Char) : Prop :=
  ∀ c, rest.head? = some c → isWordCharacter c = false ∧ c ≠ '"'

theorem delimited_nil : Delimited [] := by
  intro c head
  cases head

theorem delimited_cons {c : Char} {rest : List Char} (notInWord : isWordCharacter c = false)
    (notQuote : c ≠ '"') : Delimited (c :: rest) := by
  intro d head
  cases head
  exact ⟨notInWord, notQuote⟩

/-- In front of a delimited text, some characters are one lexeme. -/
def Scans (cs : List Char) (lexeme : Lexeme) : Prop :=
  ∀ ⦃rest : List Char⦄, Delimited rest → scan (cs ++ rest) = some (lexeme, rest)

theorem isSpace_of_isWordCharacter {c : Char} (inWord : isWordCharacter c = true) :
    isSpace c = false := by
  by_contra space
  simp only [isSpace, Bool.not_eq_false, Bool.or_eq_true, beq_iff_eq] at space
  rcases space with (((rfl | rfl) | rfl) | rfl) | rfl <;> revert inWord <;> decide

theorem scans_word {cs : List Char} (nonempty : cs ≠ [])
    (inWord : ∀ c ∈ cs, isWordCharacter c = true) : Scans cs (wordLexeme cs) := by
  intro rest delimited
  obtain ⟨c, more, rfl⟩ := List.exists_cons_of_ne_nil nonempty
  obtain ⟨first, further⟩ := List.forall_mem_cons.mp inWord
  obtain ⟨taken, left⟩ := Scan.takeWhile_stops further fun d head => (delimited d head).1
  rw [List.cons_append, scan, if_neg (by simp [isSpace_of_isWordCharacter first]), if_pos first,
    taken, left]

theorem isName_iff {cs : List Char} :
    isName cs = true ↔ (∀ c ∈ cs, isWordCharacter c = true) ∧
      ∀ part ∈ cs.splitOn '.', isIdentifier part = true := by
  rw [isName, Bool.and_eq_true, List.all_eq_true, List.all_eq_true]

/-- A name begins with a character of a word. -/
theorem exists_cons_of_isName {cs : List Char} (name : isName cs = true) :
    ∃ c rest, cs = c :: rest ∧ isWordCharacter c = true := by
  cases cs with
  | nil => cases name
  | cons c rest => exact ⟨c, rest, rfl, (isName_iff.mp name).1 c List.mem_cons_self⟩

theorem scans_name {cs : List Char} (name : isName cs = true) :
    Scans cs (.leaf (.name (String.ofList cs))) := by
  obtain ⟨c, rest, same, -⟩ := exists_cons_of_isName name
  have scans := scans_word (same ▸ List.cons_ne_nil c rest) (isName_iff.mp name).1
  rwa [wordLexeme, if_pos name] at scans

theorem isWordCharacter_of_isDigit {c : Char} (digit : c.isDigit = true) :
    isWordCharacter c = true := by
  simp [isWordCharacter, Char.isAlphanum, digit]

/-- No name begins with a digit. -/
theorem isName_of_isDigit {c : Char} {cs : List Char} (digit : c.isDigit = true) :
    isName (c :: cs) = false := by
  have notPoint : (c == '.') = false := by
    apply beq_eq_false_iff_ne.mpr
    rintro rfl
    cases digit
  obtain ⟨first, parts, split⟩ := List.exists_cons_of_ne_nil (List.splitOn_ne_nil '.' cs)
  rw [isName, List.splitOn_cons_eq_if_modifyHead, notPoint, split]
  simp [isIdentifier, digit]

theorem scans_number {c : Char} {cs : List Char} (number : isNumber (c :: cs) = true)
    (digit : c.isDigit = true) (inWord : ∀ d ∈ cs, isWordCharacter d = true) :
    Scans (c :: cs) (.leaf (.value (String.ofList (c :: cs)))) := by
  have scans := scans_word (List.cons_ne_nil c cs)
    (List.forall_mem_cons.mpr ⟨isWordCharacter_of_isDigit digit, inWord⟩)
  rwa [wordLexeme, isName_of_isDigit digit, if_neg Bool.false_ne_true, number, Bool.true_or,
    if_pos rfl] at scans

theorem point_not_mem {cs : List Char} (digits : ∀ c ∈ cs, c.isDigit = true) : '.' ∉ cs := by
  intro member
  cases digits _ member

theorem isNumber_of_whole {cs : List Char} (isWhole : Scan.IsWhole cs) : isNumber cs = true := by
  rw [isNumber, List.splitOn_eq_singleton (point_not_mem isWhole.digits)]
  simpa [isWhole.nonempty] using isWhole.digits

theorem isNumber_of_fraction {whole fraction : List Char} (nonempty : whole ≠ [])
    (digits : ∀ c ∈ whole, c.isDigit = true) (isFraction : Scan.IsFraction fraction) :
    isNumber (whole ++ '.' :: fraction) = true := by
  rw [isNumber, List.splitOn_append_cons_self_of_not_mem (point_not_mem digits),
    List.splitOn_eq_singleton (point_not_mem isFraction.digits)]
  simpa [nonempty, isFraction.nonempty] using ⟨digits, isFraction.digits⟩

theorem isName_of_constant {text : String} (constant : text ∈ constants)
    (noPoint : '.' ∉ text.toList) : isName text.toList = false := by
  have kept : text ∈ reserved ++ constants := List.mem_append_right _ constant
  rw [isName, List.splitOn_eq_singleton noPoint]
  simp [isIdentifier, kept]

theorem scans_constant {text : String} (constant : text ∈ constants) :
    Scans text.toList (.leaf (.value text)) := by
  have all : ∀ text ∈ constants, text.toList ≠ [] ∧ '.' ∉ text.toList ∧
      text.toList.all isWordCharacter = true := by decide
  obtain ⟨nonempty, noPoint, inWord⟩ := all text constant
  have scans := scans_word nonempty (List.all_eq_true.mp inWord)
  rwa [wordLexeme, isName_of_constant constant noPoint, if_neg Bool.false_ne_true,
    String.ofList_toList, List.contains_iff_mem.mpr constant, Bool.or_true, if_pos rfl] at scans

theorem isEscape_of_isEscape {c : Char} (escape : Quoted.isEscape c = true) :
    isEscape c = true := by
  simp [isEscape, escape]

theorem untilQuote_append {body : List Char} (isBody : Scan.IsStringBody body)
    (rest : List Char) : untilQuote (body ++ '"' :: rest) = some (body, rest) := by
  induction isBody with
  | nil => rfl
  | @plain c cs notQuote notBackslash noBreak _ induction =>
      rw [List.cons_append, untilQuote]
      · simp [notQuote, notBackslash, noBreak, induction]
      · intro d more same
        exact absurd same notBackslash
  | escape isEscape _ induction =>
      simp [untilQuote, isEscape_of_isEscape isEscape, induction]

/-- A quote stands at the end of a string only, or behind a backslash. -/
theorem not_isPrefixOf_quotes {body rest : List Char} (isBody : Scan.IsStringBody body)
    (delimited : Delimited rest) : ['"', '"'].isPrefixOf (body ++ '"' :: rest) = false := by
  cases isBody with
  | nil =>
      cases rest with
      | nil => rfl
      | cons c rest =>
          have notQuote := (delimited c rfl).2
          simp [List.isPrefixOf, Ne.symm notQuote]
  | plain notQuote _ _ _ => simp [List.isPrefixOf, Ne.symm notQuote]
  | escape _ _ => rfl

theorem scans_string {body : List Char} (isBody : Scan.IsStringBody body) :
    Scans ('"' :: body ++ ['"']) (.leaf (.value (String.ofList ('"' :: body ++ ['"'])))) := by
  intro rest delimited
  have written : '"' :: body ++ ['"'] ++ rest = '"' :: (body ++ '"' :: rest) := by simp
  rw [written, scan, if_neg (by decide), if_neg (by decide), if_pos rfl, stringLexeme,
    not_isPrefixOf_quotes isBody delimited, untilQuote_append isBody]
  rfl

theorem scans_character {body : List Char} (isBody : Scan.IsCharacterBody body)
    (isUnits : ∀ c ∈ body, isUnit c = true) :
    Scans ('\'' :: body ++ ['\'']) (.leaf (.value (String.ofList ('\'' :: body ++ ['\''])))) := by
  intro rest _
  cases isBody with
  | @plain c notQuote notBackslash noBreak =>
      have unit := isUnits c (List.mem_singleton_self c)
      simp [scan, characterLexeme, notQuote, notBackslash, noBreak, unit, isSpace, isWordCharacter]
  | escape isEscape =>
      simp [scan, characterLexeme, isEscape_of_isEscape isEscape, isSpace, isWordCharacter]

/-- A sign that is written with a space on each side is an operator. -/
theorem scan_symbol (op : BinaryOp) (rest : List Char) :
    scan (op.symbol.toList ++ ' ' :: rest) = some (.operator op, ' ' :: rest) := by
  cases op <;> rfl

/-- A minus directly before a word is an operator or a sign of what follows. -/
theorem scan_minus {c : Char} {rest : List Char} (inWord : isWordCharacter c = true) :
    scan ('-' :: c :: rest) = some (.operator .subtract, c :: rest) := by
  have alone : c ≠ '-' ∧ c ≠ '=' ∧ c ≠ '>' := by
    refine ⟨?_, ?_, ?_⟩ <;>
    · rintro rfl
      cases inWord
  simp [scan, isSpace, isWordCharacter, signLexeme, singleSign, alone]

theorem Lexes.infixed {rest : List Char} {lexemes : List Lexeme} (op : BinaryOp)
    (lexes : Lexes rest lexemes) :
    Lexes (' ' :: op.symbol.toList ++ ' ' :: rest) (.operator op :: lexemes) :=
  .space rfl (.lexeme (scan_symbol op rest) (.space rfl lexes))

/-- What a lexeme that Java finds is known to be. -/
def Lexeme.IsFound : Lexeme → Prop
  | leaf (.name text) => isName text.toList = true
  | leaf (.value text) =>
      ∀ c, text = String.ofList (Quoted.quote '\'' [c]) → isUnit c = true
  | _ => True

/-- A character that is quoted as it stands has sixteen bits if what stands there has; the others
are quoted with a backslash and have fewer anyway. -/
theorem isUnit_of_quote {c : Char} {body : List Char}
    (units : ∀ d, body = [d] → isUnit d = true)
    (same : '\'' :: body ++ ['\''] = Quoted.quote '\'' [c]) : isUnit c = true := by
  have encoded : body = Quoted.encodeChar c := by
    simpa [Quoted.quote, Quoted.encode] using same
  unfold Quoted.encodeChar at encoded
  split at encoded
  all_goals first | rfl | skip
  exact units c encoded

theorem isFound_word {cs : List Char} (inWord : ∀ c ∈ cs, isWordCharacter c = true) :
    (wordLexeme cs).IsFound := by
  unfold wordLexeme
  split
  next name => simpa [Lexeme.IsFound] using name
  split
  next =>
    intro c same
    rw [String.ofList_inj.mp same] at inWord
    cases inWord '\'' (List.mem_cons_self)
  trivial

theorem isFound_of_string {cs rest : List Char} {lexeme : Lexeme}
    (scanned : stringLexeme cs = some (lexeme, rest)) : lexeme.IsFound := by
  unfold stringLexeme at scanned
  split at scanned
  · cases scanned
  · obtain ⟨⟨body, _⟩, -, same⟩ := Option.map_eq_some_iff.mp scanned
    cases same
    intro c same
    cases String.ofList_inj.mp same

theorem isFound_of_character {cs rest : List Char} {lexeme : Lexeme}
    (scanned : characterLexeme cs = some (lexeme, rest)) : lexeme.IsFound := by
  unfold characterLexeme at scanned
  split at scanned
  next d rest =>
    split at scanned
    · cases scanned
      intro c same
      have units : ∀ e, ['\\', d] = [e] → isUnit e = true := by
        intro e equal
        cases equal
      exact isUnit_of_quote units (String.ofList_inj.mp same)
    · cases scanned
  next d rest _ =>
    split at scanned
    · cases scanned
    next found =>
      simp only [Bool.or_eq_true, not_or] at found
      cases scanned
      intro c same
      have units : ∀ e, [d] = [e] → isUnit e = true := by
        intro e equal
        cases equal
        simpa using found.2
      exact isUnit_of_quote units (String.ofList_inj.mp same)
  · cases scanned

/-- Java finds no name that is not one, and no character literal beyond sixteen bits. -/
theorem isFound_of_scan {cs rest : List Char} {lexeme : Lexeme}
    (scanned : scan cs = some (lexeme, rest)) : lexeme.IsFound := by
  unfold scan at scanned
  split at scanned
  · cases scanned
  next c rest =>
    split at scanned
    · cases scanned
    split at scanned
    next first =>
      cases scanned
      have further : ∀ d ∈ rest.takeWhile isWordCharacter, isWordCharacter d = true :=
        fun _ => List.mem_takeWhile_imp
      exact isFound_word (List.forall_mem_cons.mpr ⟨first, further⟩)
    split at scanned
    · exact isFound_of_string scanned
    split at scanned
    · exact isFound_of_character scanned
    · cases lexeme with
      | leaf leaf =>
          exact absurd (congrArg Prod.fst (Option.some.inj scanned)) (sign_ne_leaf c rest)
      | _ => trivial

theorem Lexes.isFound {cs : List Char} {lexemes : List Lexeme} (lexes : Lexes cs lexemes) :
    ∀ lexeme ∈ lexemes, lexeme.IsFound := by
  induction lexes with
  | nil => exact List.forall_mem_nil _
  | space _ _ induction => exact induction
  | lexeme scanned _ induction =>
      exact List.forall_mem_cons.mpr ⟨isFound_of_scan scanned, induction⟩

end Java

end Procedural
