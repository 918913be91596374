import Procedural.Proofs.Token.Lexeme

/-!
# Quoted text read back

Encoding a text leaves nothing that could end a literal, and decoding undoes it.
A quoted text is therefore one token, and what is read from that token is the text.
-/

namespace Procedural.Quoted

open Scan

theorem decode_cons {c : Char} (notBackslash : c ≠ '\\') (cs : List Char) :
    decode (c :: cs) = c :: decode cs := by
  rw [decode]
  intro d rest equal
  exact absurd equal notBackslash

/-- One encoded character in front of a text decodes to that character. -/
theorem decode_encodeChar_append (c : Char) (cs : List Char) :
    decode (encodeChar c ++ cs) = c :: decode cs := by
  unfold encodeChar
  split
  all_goals first | rfl | skip
  next _ _ _ _ notBackslash _ _ =>
    exact decode_cons notBackslash cs

theorem decode_encode (cs : List Char) : decode (encode cs) = cs := by
  induction cs with
  | nil => rfl
  | cons c cs induction =>
      have step := decode_encodeChar_append c (encode cs)
      rw [induction] at step
      exact step

theorem isStringBody_encodeChar_append (c : Char) {cs : List Char} (isBody : IsStringBody cs) :
    IsStringBody (encodeChar c ++ cs) := by
  unfold encodeChar
  split
  all_goals first | exact .escape rfl isBody | skip
  next _ notLine notReturn _ notBackslash _ notQuote =>
    have notBreak : isLineBreak c = false := by
      simp only [isLineBreak, Bool.or_eq_false_iff, beq_eq_false_iff_ne]
      exact ⟨notLine, notReturn⟩
    exact .plain notQuote notBackslash notBreak isBody

theorem isCharacterBody_encodeChar (c : Char) : IsCharacterBody (encodeChar c) := by
  unfold encodeChar
  split
  all_goals first | exact .escape rfl | skip
  next _ notLine notReturn _ notBackslash notQuote _ =>
    have notBreak : isLineBreak c = false := by
      simp only [isLineBreak, Bool.or_eq_false_iff, beq_eq_false_iff_ne]
      exact ⟨notLine, notReturn⟩
    exact .plain notQuote notBackslash notBreak

theorem isStringBody_encode (cs : List Char) : IsStringBody (encode cs) := by
  induction cs with
  | nil => exact .nil
  | cons c cs induction => exact isStringBody_encodeChar_append c induction

theorem unquote_quote (delimiter : Char) (cs : List Char) :
    unquote (quote delimiter cs) = encode cs := by
  simp [unquote, quote]

/-- A text in double quotes is one token. -/
theorem lexeme_quote_string (cs : List Char) : Lexeme .string (quote '"' cs) :=
  .string (isStringBody_encode cs)

theorem lexeme_quote_character (c : Char) : Lexeme .character (quote '\'' [c]) := by
  have encoded : encode [c] = encodeChar c := by simp [encode]
  rw [quote, encoded]
  exact .character (isCharacterBody_encodeChar c)

/-- Reading a quoted text gives the text. -/
theorem decode_unquote_quote (delimiter : Char) (cs : List Char) :
    decode (unquote (quote delimiter cs)) = cs := by
  rw [unquote_quote, decode_encode]

end Procedural.Quoted
