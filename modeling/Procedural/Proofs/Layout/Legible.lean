import Mathlib.Tactic.FinCases
import Procedural.Layout.Canonical
import Procedural.Proofs.Reader.Grammar
import Procedural.Proofs.Syntax.Unplaced
import Procedural.Proofs.Text.Numerals
import Procedural.Proofs.Text.QuotedText
import Procedural.Proofs.Token.Spacing

/-!
# Words that can be read again

The canonical words of a tree that was read from tokens are tokens themselves, and
however they are placed, they derive the same tree up to offsets.  Both facts are shown
together, along the derivation of the tree from the tokens it was first read from.
-/

namespace Procedural

open Grammar Scan

/-- The tokens have the given characters, and each is in the language of its class. -/
structure Spells (tokens : List Token) (words : List String) : Prop where
  literals : tokens.map Token.literal = words
  lexical : ∀ token ∈ tokens, token.IsLexical

namespace Spells

theorem nil {tokens : List Token} (spells : Spells tokens []) : tokens = [] :=
  List.map_eq_nil_iff.mp spells.literals

theorem cons {tokens : List Token} {word : String} {words : List String}
    (spells : Spells tokens (word :: words)) :
    ∃ token rest, tokens = token :: rest ∧ token.literal = word ∧ token.IsLexical ∧
      Spells rest words := by
  obtain ⟨token, rest, rfl, spelled, literals⟩ := List.map_eq_cons_iff.mp spells.literals
  obtain ⟨lexical, lexicalRest⟩ := List.forall_mem_cons.mp spells.lexical
  exact ⟨token, rest, rfl, spelled, lexical, literals, lexicalRest⟩

theorem append {tokens : List Token} {front back : List String}
    (spells : Spells tokens (front ++ back)) :
    ∃ frontTokens backTokens, tokens = frontTokens ++ backTokens ∧ Spells frontTokens front ∧
      Spells backTokens back := by
  obtain ⟨frontTokens, backTokens, rfl, frontLiterals, backLiterals⟩ :=
    List.map_eq_append_iff.mp spells.literals
  obtain ⟨frontLexical, backLexical⟩ := List.forall_mem_append.mp spells.lexical
  exact ⟨frontTokens, backTokens, rfl, ⟨frontLiterals, frontLexical⟩,
    ⟨backLiterals, backLexical⟩⟩

theorem single {tokens : List Token} {word : String} (spells : Spells tokens [word]) :
    ∃ token, tokens = [token] ∧ token.literal = word ∧ token.IsLexical := by
  obtain ⟨token, _, rfl, spelled, lexical, spellsEnd⟩ := spells.cons
  obtain rfl := spellsEnd.nil
  exact ⟨token, rfl, spelled, lexical⟩

theorem enclosed {tokens : List Token} {words : List String} {opening closing : String}
    (spells : Spells tokens (opening :: (words ++ [closing]))) :
    ∃ first inner last, tokens = first :: (inner ++ [last]) ∧ first.literal = opening ∧
      first.IsLexical ∧ Spells inner words ∧ last.literal = closing := by
  obtain ⟨first, _, rfl, opened, lexical, spellsRest⟩ := spells.cons
  obtain ⟨inner, _, rfl, spellsInner, spellsLast⟩ := spellsRest.append
  obtain ⟨last, rfl, closed, _⟩ := spellsLast.single
  exact ⟨first, inner, last, rfl, opened, lexical, spellsInner, closed⟩

end Spells

/-- Two tokens with the same characters have the same class. -/
theorem Token.IsLexical.kind_eq {token : Token} {kind : TokenKind} {text : String}
    (lexical : token.IsLexical) (isLexeme : Lexeme kind text.toList)
    (spelled : token.literal = text) : token.kind = kind := by
  subst spelled
  exact lexical.unique isLexeme

/-- The words are tokens, and tokens with these characters are a phrase of the value up to
offsets. -/
structure Legible {α : Type} (phrase : List Token → α → Prop) (unplaced : α → α)
    (words : List String) (value : α) : Prop where
  areWords : ∀ word ∈ words, IsWord word
  reads : ∀ tokens, Spells tokens words →
    ∃ again, phrase tokens again ∧ unplaced again = unplaced value

/-- The words that layout adds around names, literals and operators. -/
def fixedWords : List String :=
  ["(", ")", "[", "]", ",", ":", ";", "=", "LET", "IF", "ELSE", "DO", "END", "SWITCH", "CASE",
    "DEFAULT", "WHILE", "RETURN", "FUN", "LIST", "VAR", "VAL"]

theorem isWord_fixed {word : String} (member : word ∈ fixedWords) : IsWord word := by
  have scans : ∀ word ∈ fixedWords, ∃ kind c cs, word.toList = c :: cs ∧ isBlank c = false ∧
      first c cs = .token kind (c :: cs) [] := by
    intro word member
    fin_cases member <;> exact ⟨_, _, _, rfl, rfl, rfl⟩
  obtain ⟨kind, c, cs, split, notBlank, scanned⟩ := scans word member
  refine ⟨kind, ?_⟩
  rw [split]
  exact (lexeme_of_first notBlank scanned).2.1

theorem lexeme_symbol (op : BinaryOp) : Lexeme .operator op.symbol.toList := by
  cases op <;> first | exact .pair rfl | exact .single ⟨rfl, rfl, rfl, by decide, by decide⟩

theorem isWord_symbol (op : BinaryOp) : IsWord op.symbol :=
  ⟨.operator, lexeme_symbol op⟩

theorem operatorAt_symbol {token : Token} {op : BinaryOp} (lexical : token.IsLexical)
    (spelled : token.literal = op.symbol) : token.operatorAt? op.level = some op := by
  have isOperator := lexical.kind_eq (lexeme_symbol op) spelled
  have found : BinaryOp.ofSymbol? op.symbol = some op := by
    cases op <;> rfl
  simp [Token.operatorAt?, isOperator, spelled, found]

/-- The class of the tokens that denote a scalar. -/
def Scalar.tokenKind : Scalar → TokenKind
  | .nil | .boolean _ => .identifier
  | .integer _ => .integer
  | .decimal _ => .decimal
  | .character _ => .character
  | .string _ => .string

/-- A scalar that a token denotes; decimals have at least one digit behind the point. -/
def Scalar.IsDenoted : Scalar → Prop
  | .decimal value => 1 ≤ value.scale
  | _ => True

theorem isDenoted_of_scalar? {token : Token} {value : Scalar} (lexical : token.IsLexical)
    (denotes : token.scalar? = some value) : value.IsDenoted := by
  unfold Token.scalar? at denotes
  unfold Token.IsLexical at lexical
  split at denotes
  · obtain ⟨number, _, rfl⟩ := Option.map_eq_some_iff.mp denotes
    trivial
  next isDecimal =>
    obtain ⟨number, read, rfl⟩ := Option.map_eq_some_iff.mp denotes
    rw [isDecimal] at lexical
    exact Decimal.one_le_scale_of_lexeme lexical read
  · obtain ⟨character, _, rfl⟩ := Option.map_eq_some_iff.mp denotes
    trivial
  · cases denotes
    trivial
  · split at denotes
    · cases denotes
      trivial
    split at denotes
    · cases denotes
      trivial
    split at denotes
    · cases denotes
      trivial
    · cases denotes
  · cases denotes

theorem lexeme_literalText {value : Scalar} (denoted : value.IsDenoted) :
    Lexeme value.tokenKind value.literalText.toList := by
  cases value with
  | nil => exact .identifier rfl (List.all_eq_true.mp rfl)
  | boolean value => cases value <;> exact .identifier rfl (List.all_eq_true.mp rfl)
  | integer number => exact Numeral.lexeme_text number
  | decimal number => exact Decimal.lexeme_plain denoted
  | character c =>
      simpa [Scalar.literalText, Scalar.tokenKind] using Quoted.lexeme_quote_character c
  | string text =>
      simpa [Scalar.literalText, Scalar.tokenKind] using Quoted.lexeme_quote_string text.toList

/-- A token with the text of a scalar denotes that scalar. -/
theorem scalar?_literalText {token : Token} {value : Scalar} (denoted : value.IsDenoted)
    (lexical : token.IsLexical) (spelled : token.literal = value.literalText) :
    token.isLiteral = true ∧ token.scalar? = some value := by
  have kind := lexical.kind_eq (lexeme_literalText denoted) spelled
  unfold Token.isLiteral Token.scalar?
  rw [kind, spelled]
  cases value with
  | nil => exact ⟨rfl, rfl⟩
  | boolean value => cases value <;> exact ⟨rfl, rfl⟩
  | integer number =>
      refine ⟨rfl, ?_⟩
      simp only [Scalar.tokenKind, Scalar.literalText, Numeral.integer?_text, Option.map_some]
  | decimal number =>
      refine ⟨rfl, ?_⟩
      simp only [Scalar.tokenKind, Scalar.literalText, Decimal.ofNumeral?_plain denoted,
        Option.map_some]
  | character c =>
      refine ⟨rfl, ?_⟩
      simp only [Scalar.tokenKind, Scalar.literalText, String.toList_ofList,
        Quoted.decode_unquote_quote, Token.singleCharacter?, Option.map_some]
  | string text =>
      refine ⟨rfl, ?_⟩
      simp only [Scalar.tokenKind, Scalar.literalText, String.toList_ofList,
        Quoted.decode_unquote_quote, String.ofList_toList]

section Items

variable {α : Type} {item : List Token → α → Prop} {unplaced : α → α} (write : α → List String)

theorem Legible.furtherItems {values : List α}
    (legible : ∀ value ∈ values, Legible item unplaced (write value) value) :
    ∀ tokens, Spells tokens (values.flatMap fun value => "," :: write value) →
      ∃ parts : List (List Token × α), (∀ part ∈ parts, item part.1 part.2) ∧
        JoinedFurther (parts.map Prod.fst) tokens ∧
        (parts.map Prod.snd).map unplaced = values.map unplaced := by
  induction values with
  | nil =>
      intro tokens spells
      obtain rfl := spells.nil
      exact ⟨[], by simp, .nil, rfl⟩
  | cons value values induction =>
      intro tokens spells
      obtain ⟨legibleFirst, legibleLater⟩ := List.forall_mem_cons.mp legible
      obtain ⟨comma, _, rfl, spelled, _, spellsItems⟩ := spells.cons
      obtain ⟨itemTokens, later, rfl, spellsItem, spellsLater⟩ := spellsItems.append
      obtain ⟨again, derived, same⟩ := legibleFirst.reads itemTokens spellsItem
      obtain ⟨parts, all, joined, sameLater⟩ := induction legibleLater later spellsLater
      refine ⟨(itemTokens, again) :: parts, ?_, .cons spelled joined, ?_⟩
      · exact List.forall_mem_cons.mpr ⟨derived, all⟩
      · simp only [List.map_cons, same, sameLater]

/-- Legible items with commas between them are legible. -/
theorem Legible.items {first : α} {values : List α}
    (legible : ∀ value ∈ first :: values, Legible item unplaced (write value) value) :
    Legible (fun tokens values => Items item tokens values ∧ values ≠ []) (List.map unplaced)
      (write first ++ values.flatMap fun value => "," :: write value) (first :: values) := by
  obtain ⟨legibleFirst, legibleLater⟩ := List.forall_mem_cons.mp legible
  constructor
  · intro word member
    rcases List.mem_append.mp member with inFirst | inLater
    · exact legibleFirst.areWords word inFirst
    obtain ⟨value, memberValue, written⟩ := List.mem_flatMap.mp inLater
    rcases List.mem_cons.mp written with rfl | inValue
    · exact isWord_fixed (by decide)
    · exact (legibleLater value memberValue).areWords word inValue
  · intro tokens spells
    obtain ⟨itemTokens, later, rfl, spellsItem, spellsLater⟩ := spells.append
    obtain ⟨again, derived, same⟩ := legibleFirst.reads itemTokens spellsItem
    obtain ⟨parts, all, joined, sameLater⟩ :=
      Legible.furtherItems write legibleLater later spellsLater
    refine ⟨again :: parts.map Prod.snd, ⟨⟨(itemTokens, again) :: parts, ?_, .cons joined, rfl⟩,
      by simp⟩, ?_⟩
    · exact List.forall_mem_cons.mpr ⟨derived, all⟩
    · simp only [List.map_cons, same, sameLater]

end Items

theorem Expr.wordsOfFurtherItems_eq (items : List Expr) :
    wordsOfFurtherItems items = items.flatMap fun expr => "," :: expr.words := by
  induction items with
  | nil => rfl
  | cons first rest induction => simp [wordsOfFurtherItems, induction]

theorem legible_expressions {elements : List Expr} (nonempty : elements ≠ [])
    (legible : ∀ expr ∈ elements, Legible IsExpr Expr.unplaced expr.words expr) :
    Legible (fun tokens values => Items IsExpr tokens values ∧ values ≠ [])
      (List.map Expr.unplaced) (Expr.wordsOfItems elements) elements := by
  cases elements with
  | nil => exact absurd rfl nonempty
  | cons first rest =>
      rw [Expr.wordsOfItems, Expr.wordsOfFurtherItems_eq]
      exact Legible.items Expr.words legible

theorem Grammar.JoinedFurther.subset {items : List (List Token)} {tokens : List Token}
    (joined : JoinedFurther items tokens) : ∀ item ∈ items, item ⊆ tokens := by
  induction joined with
  | nil => simp
  | @cons comma item tokens items _ _ induction =>
      intro other member token inOther
      rcases List.mem_cons.mp member with rfl | inLater
      · simp [inOther]
      · simp [induction other inLater inOther]

theorem Grammar.Joined.subset {items : List (List Token)} {tokens : List Token}
    (joined : Joined items tokens) : ∀ item ∈ items, item ⊆ tokens := by
  cases joined with
  | nil => simp
  | @cons item tokens items further =>
      intro other member token inOther
      rcases List.mem_cons.mp member with rfl | inLater
      · exact List.mem_append_left _ inOther
      · exact List.mem_append_right _ (further.subset other inLater inOther)

theorem Token.IsLexical.ne_closing {token : Token} (lexical : token.IsLexical)
    (isIdentifier : token.kind = .identifier) : token.literal ≠ ")" := by
  intro spelled
  have isSymbol : Lexeme .operator ")".toList :=
    .single ⟨rfl, rfl, rfl, by decide, by decide⟩
  have isOperator := lexical.kind_eq isSymbol spelled
  rw [isIdentifier] at isOperator
  cases isOperator

/-- The words that decide how a statement or a block goes on. -/
def keywords : List String :=
  statementWords ++ Reader.caseClosers

theorem Scalar.literalText_ne {value : Scalar} (denoted : value.IsDenoted) {word : String}
    (member : word ∈ ")" :: keywords) : value.literalText ≠ word := by
  rintro rfl
  have isLexeme := lexeme_literalText denoted
  have scans : ∃ kind, (kind = .identifier ∨ kind = .operator) ∧
      Lexeme kind value.literalText.toList := by
    generalize value.literalText = word at member
    fin_cases member
    · exact ⟨.operator, .inr rfl, .single ⟨rfl, rfl, rfl, by decide, by decide⟩⟩
    all_goals exact ⟨.identifier, .inl rfl, .identifier rfl (List.all_eq_true.mp rfl)⟩
  obtain ⟨kind, isWord, isLexeme'⟩ := scans
  obtain rfl := isLexeme'.unique isLexeme
  cases value with
  | nil => simp [literalText, keywords, statementWords, Reader.caseClosers] at member
  | boolean value =>
      cases value <;> simp [literalText, keywords, statementWords, Reader.caseClosers] at member
  | _ => simp [tokenKind] at isWord

/-- If the first word is a keyword then so is the first token. -/
def StartsLike (tokens : List Token) (words : List String) : Prop :=
  ∃ token word rest, tokens.head? = some token ∧ words = word :: rest ∧
    (word ∈ keywords → token.literal = word)

theorem StartsLike.startsWithNone {closers : List String} {tokens again : List Token}
    {words : List String} (like : StartsLike tokens words) (known : closers ⊆ keywords)
    (different : StartsWithNone closers tokens) (spells : Spells again words) :
    StartsWithNone closers again := by
  obtain ⟨token, word, rest, head, rfl, same⟩ := like
  obtain ⟨token', _, rfl, rfl, _, _⟩ := spells.cons
  intro first head' member
  cases head'
  rw [← same (known member)] at member
  exact different token head member

theorem Grammar.Phrase.first {levels : List Level} {tokens : List Token} {expr : Expr}
    (phrase : Phrase levels tokens expr) (lexical : ∀ token ∈ tokens, token.IsLexical) :
    StartsLike tokens expr.words ∧ expr.words.head? ≠ some ")" := by
  have ofName : ∀ {name : Token} (rest : List Token) (words : List String), name.IsName →
      name.IsLexical → StartsLike (name :: rest) (name.literal :: words) ∧
        (name.literal :: words).head? ≠ some ")" := by
    intro name rest words isName lexicalName
    refine ⟨⟨name, name.literal, words, rfl, rfl, fun _ => rfl⟩, ?_⟩
    simpa using lexicalName.ne_closing isName.identifier
  induction phrase with
  | @literal token value isLiteral denotes =>
      have denoted := isDenoted_of_scalar? (lexical token (by simp)) denotes
      refine ⟨⟨token, value.literalText, [], rfl, rfl, fun member => ?_⟩, ?_⟩
      · exact absurd rfl (Scalar.literalText_ne denoted (List.mem_cons_of_mem _ member))
      · simpa [Expr.words] using Scalar.literalText_ne denoted List.mem_cons_self
  | @group opening closing tokens inner isOpening =>
      refine ⟨⟨opening, "(", inner.words ++ [")"], rfl, rfl, fun member => ?_⟩, ?_⟩
      · exact isOpening.literal
      · simp [Expr.words]
  | access isName => exact ofName _ _ isName (lexical _ (by simp))
  | element isName => exact ofName _ _ isName (lexical _ (by simp))
  | call isName => exact ofName _ _ isName (lexical _ (by simp))
  | @binary level tighter token op leftTokens rightTokens left right _ _ _ induction =>
      obtain ⟨⟨first, word, rest, head, written, like⟩, notClosing⟩ :=
        induction fun token member => lexical token (by simp [member])
      rw [written] at notClosing
      rw [Expr.words, written]
      exact ⟨⟨first, word, rest ++ op.symbol :: right.words, by simp [List.head?_append, head],
        rfl, like⟩, notClosing⟩
  | tighter _ induction => exact induction lexical

theorem Token.IsLexical.isOpening {token : Token} (lexical : token.IsLexical)
    (spelled : token.literal = "(") : token.IsOpening := by
  have isSymbol : Lexeme .operator "(".toList :=
    .single ⟨rfl, rfl, rfl, by decide, by decide⟩
  refine ⟨spelled, ?_⟩
  simp only [Token.isLiteral, lexical.kind_eq isSymbol spelled]

/-- A token with the characters of a name names the same thing. -/
theorem Token.IsName.respelled {name token : Token} (isName : name.IsName)
    (lexical : name.IsLexical) (lexical' : token.IsLexical)
    (spelled : token.literal = name.literal) : token.IsName := by
  have same : token.kind = name.kind := lexical'.kind_eq lexical spelled
  obtain ⟨isIdentifier, notLiteral, notOpening⟩ := isName
  refine ⟨same.trans isIdentifier, ?_, spelled ▸ notOpening⟩
  rw [← notLiteral, Token.isLiteral, Token.isLiteral, same, spelled]

/-- Legible arguments are legible between the parentheses of a call. -/
theorem legible_arguments {arguments : List Expr}
    (legible : ∀ expr ∈ arguments, Legible IsExpr Expr.unplaced expr.words expr)
    (notClosing : ∀ expr ∈ arguments, expr.words ≠ [] ∧ expr.words.head? ≠ some ")") :
    Legible (fun tokens values => Items IsExpr tokens values ∧ StartsWithNone [")"] tokens)
      (List.map Expr.unplaced) (Expr.wordsOfItems arguments) arguments := by
  cases arguments with
  | nil =>
      refine ⟨by simp [Expr.wordsOfItems], ?_⟩
      intro tokens spells
      obtain rfl := spells.nil
      exact ⟨[], ⟨⟨[], by simp, .nil, rfl⟩, by simp [StartsWithNone]⟩, rfl⟩
  | cons first rest =>
      have items := legible_expressions (by simp) legible
      refine ⟨items.areWords, ?_⟩
      intro tokens spells
      obtain ⟨values, ⟨derived, nonempty⟩, same⟩ := items.reads tokens spells
      refine ⟨values, ⟨derived, ?_⟩, same⟩
      obtain ⟨nonemptyFirst, different⟩ := notClosing first (by simp)
      obtain ⟨word, later, written⟩ := List.exists_cons_of_ne_nil nonemptyFirst
      rw [written] at different
      rw [Expr.wordsOfItems, written] at spells
      obtain ⟨token, _, rfl, spelled, _, _⟩ := spells.cons
      simpa [StartsWithNone, spelled] using different

/-- Expressions that were read from tokens are legible. -/
theorem Grammar.Phrase.legible {levels : List Level} {tokens : List Token} {expr : Expr}
    (phrase : Phrase levels tokens expr) (lexical : ∀ token ∈ tokens, token.IsLexical) :
    Legible (Phrase levels) Expr.unplaced expr.words expr := by
  induction phrase with
  | @literal token value isLiteral denotes =>
      have denoted := isDenoted_of_scalar? (lexical token (by simp)) denotes
      constructor
      · intro word member
        obtain rfl := List.mem_singleton.mp member
        exact ⟨_, lexeme_literalText denoted⟩
      · intro tokens spells
        obtain ⟨token, rfl, spelled, lexical⟩ := spells.single
        obtain ⟨isLiteral, denotes⟩ := scalar?_literalText denoted lexical spelled
        exact ⟨_, .literal isLiteral denotes, rfl⟩
  | @group opening closing tokens inner _ _ _ induction =>
      have legible := induction fun token member => lexical token (by simp [member])
      constructor
      · simp only [Expr.words, List.cons_append, List.forall_mem_cons, List.forall_mem_append]
        exact ⟨isWord_fixed (by decide), legible.areWords, isWord_fixed (by decide), by simp⟩
      · intro again spells
        obtain ⟨opening, innerTokens, closing, rfl, opened, lexicalOpening, spellsInner, closed⟩ :=
          spells.enclosed
        obtain ⟨inner', derived, same⟩ := legible.reads innerTokens spellsInner
        refine ⟨_, .group (lexicalOpening.isOpening opened) derived closed, ?_⟩
        simp only [Expr.unplaced, same, Note.unplaced, Note.at]
  | @access name isName =>
      have lexicalName := lexical name (by simp)
      constructor
      · intro word member
        obtain rfl := List.mem_singleton.mp member
        exact ⟨_, lexicalName⟩
      · intro again spells
        obtain ⟨name', rfl, spelled, lexicalName'⟩ := spells.single
        refine ⟨_, .access (isName.respelled lexicalName lexicalName' spelled), ?_⟩
        simp only [Expr.unplaced, spelled, Note.unplaced, Note.at]
  | @element name opening closing tokens index isName _ _ _ induction =>
      have lexicalName := lexical name (by simp)
      have legible := induction fun token member => lexical token (by simp [member])
      constructor
      · simp only [Expr.words, List.cons_append, List.forall_mem_cons, List.forall_mem_append]
        exact ⟨⟨_, lexicalName⟩, isWord_fixed (by decide), legible.areWords,
          isWord_fixed (by decide), by simp⟩
      · intro again spells
        obtain ⟨name', _, rfl, spelled, lexicalName', spellsRest⟩ := spells.cons
        obtain ⟨opening, indexTokens, closing, rfl, opened, _, spellsIndex, closed⟩ :=
          spellsRest.enclosed
        obtain ⟨index', derived, same⟩ := legible.reads indexTokens spellsIndex
        refine ⟨_, .element (isName.respelled lexicalName lexicalName' spelled) opened derived
          closed, ?_⟩
        simp only [Expr.unplaced, same, spelled, Note.unplaced, Note.at]
  | @call name opening closing tokens parts isName _ derived joined _ _ induction =>
      have lexicalName := lexical name (by simp)
      have lexicalPart : ∀ part ∈ parts, ∀ token ∈ part.1, token.IsLexical := by
        intro part member token inPart
        have inTokens := joined.subset part.1 (List.mem_map_of_mem member) inPart
        exact lexical token (by simp [inTokens])
      have legible : ∀ expr ∈ parts.map Prod.snd,
          Legible IsExpr Expr.unplaced expr.words expr := by
        intro expr member
        obtain ⟨part, memberPart, rfl⟩ := List.mem_map.mp member
        exact induction part memberPart (lexicalPart part memberPart)
      have notClosing : ∀ expr ∈ parts.map Prod.snd,
          expr.words ≠ [] ∧ expr.words.head? ≠ some ")" := by
        intro expr member
        obtain ⟨part, memberPart, rfl⟩ := List.mem_map.mp member
        obtain ⟨⟨_, word, rest, _, written, _⟩, different⟩ :=
          (derived part memberPart).first (lexicalPart part memberPart)
        exact ⟨by simp [written], different⟩
      have arguments := legible_arguments legible notClosing
      constructor
      · simp only [Expr.words, List.cons_append, List.forall_mem_cons, List.forall_mem_append]
        exact ⟨⟨_, lexicalName⟩, isWord_fixed (by decide), arguments.areWords,
          isWord_fixed (by decide), by simp⟩
      · intro again spells
        obtain ⟨name', _, rfl, spelled, lexicalName', spellsRest⟩ := spells.cons
        obtain ⟨opening, argumentTokens, closing, rfl, opened, _, spellsArguments, closed⟩ :=
          spellsRest.enclosed
        obtain ⟨_, ⟨⟨parts', derived', joined', rfl⟩, starts⟩, same⟩ :=
          arguments.reads argumentTokens spellsArguments
        refine ⟨_, .call (isName.respelled lexicalName lexicalName' spelled) opened derived' joined'
          starts closed, ?_⟩
        simp only [Expr.unplaced, Expr.unplacedItems_eq, same, spelled, Note.unplaced, Note.at]
  | @binary level tighter token op leftTokens rightTokens left right _ read _ inductionLeft
      inductionRight =>
      have legibleLeft := inductionLeft fun token member => lexical token (by simp [member])
      have legibleRight := inductionRight fun token member => lexical token (by simp [member])
      obtain rfl := Token.level_of_operatorAt read
      constructor
      · simp only [Expr.words, List.forall_mem_cons, List.forall_mem_append]
        exact ⟨legibleLeft.areWords, isWord_symbol op, legibleRight.areWords⟩
      · intro again spells
        obtain ⟨leftTokens, _, rfl, spellsLeft, spellsRest⟩ := spells.append
        obtain ⟨token, rightTokens, rfl, spelled, lexicalToken, spellsRight⟩ := spellsRest.cons
        obtain ⟨left', derivedLeft, sameLeft⟩ := legibleLeft.reads leftTokens spellsLeft
        obtain ⟨right', derivedRight, sameRight⟩ := legibleRight.reads rightTokens spellsRight
        refine ⟨_, .binary derivedLeft (operatorAt_symbol lexicalToken spelled) derivedRight, ?_⟩
        simp only [Expr.unplaced, sameLeft, sameRight, Note.unplaced, Note.at]
  | tighter _ induction =>
      obtain ⟨areWords, reads⟩ := induction lexical
      refine ⟨areWords, ?_⟩
      intro tokens spells
      obtain ⟨again, derived, same⟩ := reads tokens spells
      exact ⟨again, .tighter derived, same⟩

end Procedural
