import Procedural.Proofs.Reader.Completeness
import Procedural.Proofs.Text.QuotedText
import Procedural.Proofs.Token.Tokenization

/-!
# Quoted texts as literals

Quoting, scanning and decoding each have a table of escapes.  They agree: whatever is
quoted becomes one token that reaches from quote to quote, and the literal that is read
from it has the value that was quoted.
-/

namespace Procedural

/-- The whole text is one token of the class, and the characters between its quotes decode to the
content, which is the value of the literal that is read. -/
structure Quoted.ReadsAs (text : List Char) (kind : TokenKind) (content : List Char)
    (value : Scalar) : Prop where
  scanned : tokenize (String.ofList text) = .ok [⟨kind, String.ofList text, 0⟩]
  decoded : decode (unquote text) = content
  read : Reader.expression 1 [⟨kind, String.ofList text, 0⟩] = .ok (.literal (.at 0) value) []

/-- A quoted text reads as it was if its token denotes it. -/
theorem Quoted.readsAs_quote {delimiter : Char} {content : List Char} {kind : TokenKind}
    {value : Scalar} (isLexeme : Scan.Lexeme kind (quote delimiter content))
    (isLiteral : Token.isLiteral ⟨kind, String.ofList (quote delimiter content), 0⟩ = true)
    (denoted : Token.scalar? ⟨kind, String.ofList (quote delimiter content), 0⟩ = some value) :
    ReadsAs (quote delimiter content) kind content value := by
  refine ⟨tokenize_of_lexeme ?_, decode_unquote_quote delimiter content,
    Reader.expression_literal isLiteral denoted⟩
  rwa [String.toList_ofList]

/-- Every text in double quotes is one string token that decodes to the text, and every character
in single quotes is one character token that decodes to the character. -/
theorem Quoted.quote_readsAs :
    (∀ text : String, ReadsAs (quote '"' text.toList) .string text.toList (.string text)) ∧
      ∀ c : Char, ReadsAs (quote '\'' [c]) .character [c] (.character c) := by
  constructor
  · intro text
    refine readsAs_quote (lexeme_quote_string text.toList) rfl ?_
    simp only [Token.scalar?, String.toList_ofList, decode_unquote_quote, String.ofList_toList]
  · intro c
    refine readsAs_quote (lexeme_quote_character c) rfl ?_
    simp only [Token.scalar?, String.toList_ofList, decode_unquote_quote,
      Token.singleCharacter?, Option.map_some]

end Procedural
