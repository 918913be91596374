import Mathlib.Data.List.TakeWhile
import Procedural.Proofs.Token.LineBreaks

/-!
# Texts as sequences of tokens

`Tokenization` says how a text is cut into tokens: from left to right, with any white
space between them, each token the longest that the text goes on with.  Tokenizing
finds exactly these tokens, and the offset of a fault is a place between characters.
-/

namespace Procedural

open Scan

/-- From a byte offset on, the text consists of the tokens and white space. -/
inductive Tokenization : Nat → List Char → List Token → Prop where
  | blanks {offset : Nat} {blanks : List Char} :
      (∀ c ∈ blanks, isBlank c = true) → Tokenization offset blanks []
  | token {offset : Nat} {blanks lexeme rest : List Char} {kind : TokenKind}
      {tokens : List Token} :
      (∀ c ∈ blanks, isBlank c = true) → Lexeme kind lexeme → IsLongest lexeme rest →
      (kind.isWord = true → AtTerminator rest) →
      Tokenization (offset + byteLength blanks + byteLength lexeme) rest tokens →
      Tokenization offset (blanks ++ (lexeme ++ rest))
        (⟨kind, String.ofList lexeme, offset + byteLength blanks⟩ :: tokens)

/-- The characters of a token are in the language of its class. -/
def Token.IsLexical (token : Token) : Prop :=
  Lexeme token.kind token.literal.toList

theorem byteLength_append (front back : List Char) :
    byteLength (front ++ back) = byteLength front + byteLength back := by
  induction front with
  | nil => simp [byteLength]
  | cons c front induction => simp [byteLength, induction, Nat.add_assoc]

theorem utf8ByteSize_ofList (cs : List Char) : (String.ofList cs).utf8ByteSize = byteLength cs := by
  induction cs with
  | nil => rfl
  | cons c cs induction =>
      rw [String.ofList_cons, String.utf8ByteSize_append, String.utf8ByteSize_singleton, induction,
        byteLength]

namespace Scan

/-- The characters that a scan took and left. -/
def text : Scan → List Char
  | token _ lexeme rest => lexeme ++ rest
  | fault _ taken rest => taken ++ rest

theorem text_after (before : List Char) (scan : Scan) :
    (scan.after before).text = before ++ scan.text := by
  cases scan <;> simp [after, text]

theorem text_word (kind : TokenKind) (wordKind : WordKind) (lexeme cs : List Char) :
    (word kind wordKind lexeme cs).text = lexeme ++ cs := by
  unfold word
  split
  · rfl
  · split <;> rfl

theorem text_identifier (c : Char) (cs : List Char) : (identifier c cs).text = c :: cs := by
  rw [identifier, text_word, List.cons_append, List.takeWhile_append_dropWhile]

theorem text_number (cs : List Char) : (number cs).text = cs := by
  have whole := List.takeWhile_append_dropWhile (p := Char.isDigit) (l := cs)
  unfold number
  split
  · rfl
  · simp only
    split
    next rest point =>
      rw [point] at whole
      have digits := List.takeWhile_append_dropWhile (p := Char.isDigit) (l := rest)
      unfold fraction
      simp only
      split
      · simp [text, whole]
      · simp [text_word, digits, whole]
    · rw [text_word, whole]

theorem text_closeCharacter (taken cs : List Char) :
    (closeCharacter taken cs).text = taken ++ cs := by
  unfold closeCharacter
  split
  · rfl
  · split
    next quote => simp [text, quote]
    · rfl

theorem text_character (cs : List Char) : (character cs).text = cs := by
  unfold character
  split
  · rfl
  · split
    · rw [text_closeCharacter]
      rfl
    · rfl
  · rfl
  · split
    · rfl
    · split
      · rfl
      · rw [text_closeCharacter]
        rfl

theorem text_string (cs : List Char) : (string cs).text = cs := by
  fun_induction string cs with
  | case2 c tail _ induction => rw [text_after, induction]; rfl
  | case7 c tail _ _ _ _ induction => rw [text_after, induction]; rfl
  | _ => rfl

theorem text_operator (c : Char) (cs : List Char) : (operator c cs).text = c :: cs := by
  unfold operator
  split
  · split <;> rfl
  · rfl

/-- A scan loses no character. -/
theorem text_first (c : Char) (cs : List Char) : (first c cs).text = c :: cs := by
  unfold first
  split
  · exact text_identifier c cs
  split
  · exact text_number (c :: cs)
  split
  next minus => rw [text_after, text_number, minus.1]; rfl
  split
  next quote => rw [text_after, text_character, quote]; rfl
  split
  next quote => rw [text_after, text_string, quote]; rfl
  · exact text_operator c cs

end Scan

namespace Cursor

theorem skipBlanks_split (cursor : Cursor) :
    ∃ blanks, (∀ c ∈ blanks, isBlank c = true) ∧
      cursor.rest = blanks ++ cursor.skipBlanks.rest ∧
      cursor.skipBlanks.offset = cursor.offset + byteLength blanks ∧
      ∀ c, cursor.skipBlanks.rest.head? = some c → isBlank c = false := by
  refine ⟨cursor.rest.takeWhile isBlank, all_takeWhile _,
    List.takeWhile_append_dropWhile.symm, rfl, ?_⟩
  intro c head
  have stopped := List.head?_dropWhile_not isBlank cursor.rest
  rw [show cursor.rest.dropWhile isBlank = cursor.skipBlanks.rest from rfl, head] at stopped
  simpa using stopped

theorem tokenization_of_tokensWithin {budget : Nat} {cursor : Cursor} {tokens : List Token}
    (enough : cursor.rest.length ≤ budget) (found : (tokensWithin budget cursor).1 = .ok tokens) :
    Tokenization cursor.offset cursor.rest tokens := by
  induction budget generalizing cursor tokens with
  | zero =>
      cases found
      rw [List.length_eq_zero_iff.mp (Nat.le_zero.mp enough)]
      exact .blanks (by simp)
  | succ budget induction =>
      obtain ⟨blanks, allBlank, split, offset, visible⟩ := cursor.skipBlanks_split
      simp only [tokensWithin] at found
      split at found
      next finished =>
        cases found
        rw [split, finished, List.append_nil]
        exact .blanks allBlank
      next c cs start =>
        have notBlank : isBlank c = false := visible c (by rw [start]; rfl)
        split at found
        · cases found
        next kind lexeme rest scanned =>
          obtain ⟨taken, isLexeme, delimited⟩ := lexeme_of_first notBlank scanned
          obtain ⟨longest, terminated⟩ := (delimited_iff isLexeme).mp delimited
          split at found
          next later stop laterFound =>
            cases found
            rw [split, start, ← taken, offset]
            apply Tokenization.token allBlank isLexeme longest terminated
            rw [← offset]
            apply induction _ (congrArg Prod.fst laterFound)
            have positive := List.length_pos_iff.mpr isLexeme.nonempty
            rw [split, start, ← taken] at enough
            simp only [List.length_append] at enough
            exact Nat.le_of_lt_succ (by simp only [advance]; omega)
          · cases found

/-- A token that stands behind white space is scanned first. -/
theorem tokensWithin_lexeme {blanks lexeme rest : List Char} {kind : TokenKind}
    (allBlank : ∀ c ∈ blanks, isBlank c = true) (isLexeme : Lexeme kind lexeme)
    (delimited : Delimited lexeme rest kind) (budget offset : Nat) :
    tokensWithin (budget + 1) ⟨blanks ++ (lexeme ++ rest), offset⟩ =
      match tokensWithin budget ⟨rest, offset + byteLength blanks + byteLength lexeme⟩ with
      | (.ok tokens, stop) =>
          (.ok (⟨kind, String.ofList lexeme, offset + byteLength blanks⟩ :: tokens), stop)
      | (.error error, stop) => (.error error, stop) := by
  obtain ⟨c, cs, split, scanned⟩ := first_of_lexeme isLexeme delimited
  have visible : ∀ d, (lexeme ++ rest).head? = some d → isBlank d = false := by
    intro d head
    obtain ⟨e, es, rfl⟩ := List.exists_cons_of_ne_nil isLexeme.nonempty
    exact isLexeme.notBlank d head
  have skip := takeWhile_stops allBlank visible
  rw [split] at skip
  cases later : tokensWithin budget ⟨rest, offset + byteLength blanks + byteLength lexeme⟩ with
  | mk outcome stop =>
      cases outcome <;>
        simp only [tokensWithin, skipBlanks, advance, skip.1, skip.2, split, scanned, later]

theorem tokensWithin_of_tokenization {offset : Nat} {cs : List Char} {tokens : List Token}
    (tokenization : Tokenization offset cs tokens) :
    ∀ budget, cs.length ≤ budget →
      ∃ stop, tokensWithin budget ⟨cs, offset⟩ = (.ok tokens, stop) := by
  induction tokenization with
  | @blanks offset blanks allBlank =>
      intro budget _
      cases budget with
      | zero => exact ⟨_, rfl⟩
      | succ budget =>
          have skipped : blanks.dropWhile isBlank = [] := List.dropWhile_eq_nil_iff.mpr allBlank
          refine ⟨(Cursor.mk blanks offset).skipBlanks, ?_⟩
          simp only [tokensWithin, skipBlanks, advance, skipped]
  | @token offset blanks lexeme rest kind tokens allBlank isLexeme longest terminated _
      induction =>
      intro budget enough
      have delimited := (delimited_iff isLexeme).mpr ⟨longest, terminated⟩
      have shorter : rest.length + 1 ≤ budget := by
        have positive := List.length_pos_iff.mpr isLexeme.nonempty
        simp only [List.length_append] at enough
        omega
      obtain ⟨budget, rfl⟩ : ∃ fewer, budget = fewer + 1 := ⟨budget - 1, by omega⟩
      obtain ⟨stop, found⟩ := induction budget (by omega)
      refine ⟨stop, ?_⟩
      rw [tokensWithin_lexeme allBlank isLexeme delimited, found]

/-- The offset of a fault counts some characters that stand in front of the rest, and what was
scanned before it does not end in a carriage return. -/
theorem boundary_of_tokensWithin {budget : Nat} {cursor : Cursor} {error : LexicalError}
    (failed : (tokensWithin budget cursor).1 = .error error) :
    ∃ before after, cursor.rest = before ++ after ∧
      error.offset = cursor.offset + byteLength before ∧ AvoidsReturns before after := by
  induction budget generalizing cursor with
  | zero => cases failed
  | succ budget induction =>
      obtain ⟨blanks, _, split, offset, visible⟩ := cursor.skipBlanks_split
      simp only [tokensWithin] at failed
      split at failed
      · cases failed
      next c cs start =>
        have whole := text_first c cs
        have notBlank : isBlank c = false := visible c (by rw [start]; rfl)
        have onLine := onOneLine_first notBlank cs
        split at failed
        next why taken rest scanned =>
          rw [scanned] at whole onLine
          cases failed
          cases concerns : why.concernsStart with
          | true =>
              exact ⟨blanks, cursor.skipBlanks.rest, split, by simp [offset],
                .inr ⟨c, cs, start, notBlank⟩⟩
          | false =>
              refine ⟨blanks ++ taken, rest, ?_, ?_, ?_⟩
              · rw [split, start, ← whole, List.append_assoc]
                rfl
              · simp [advance, offset, byteLength_append, Nat.add_assoc]
              · by_cases none : taken = []
                · subst none
                  exact .inr ⟨c, cs, whole, notBlank⟩
                · exact .inl (onLine.last_append none blanks)
        next kind lexeme rest scanned =>
          obtain ⟨_, isLexeme, _⟩ := lexeme_of_first notBlank scanned
          rw [scanned] at whole onLine
          split at failed
          · cases failed
          next error' stop laterFailed =>
            cases failed
            obtain ⟨before, after, splitLater, offsetLater, avoids⟩ :=
              induction (congrArg Prod.fst laterFailed)
            refine ⟨blanks ++ lexeme ++ before, after, ?_, ?_, ?_⟩
            · change rest = before ++ after at splitLater
              rw [split, start, ← whole]
              simp [text, splitLater]
            · rw [offsetLater]
              simp [advance, offset, byteLength_append, Nat.add_assoc]
            · exact avoids.prepend (onLine.last_append isLexeme.nonempty blanks)

end Cursor

namespace Tokenization

variable {offset : Nat} {cs : List Char} {tokens : List Token}

theorem lexemes (tokenization : Tokenization offset cs tokens) :
    ∀ token ∈ tokens, token.IsLexical := by
  induction tokenization with
  | blanks => simp
  | token _ isLexeme _ _ _ induction =>
      rw [List.forall_mem_cons]
      exact ⟨by simpa [Token.IsLexical] using isLexeme, induction⟩

theorem slices (tokenization : Tokenization offset cs tokens) :
    ∀ token ∈ tokens, ∃ before after, cs = before ++ (token.literal.toList ++ after) ∧
      token.offset = offset + byteLength before := by
  induction tokenization with
  | blanks => simp
  | @token offset blanks lexeme rest kind tokens _ _ _ _ _ induction =>
      rw [List.forall_mem_cons]
      refine ⟨⟨blanks, rest, by simp, rfl⟩, ?_⟩
      intro token member
      obtain ⟨before, after, split, same⟩ := induction token member
      refine ⟨blanks ++ (lexeme ++ before), after, by simp [split], ?_⟩
      rw [same, byteLength_append, byteLength_append]
      omega

theorem offset_le (tokenization : Tokenization offset cs tokens) :
    ∀ token ∈ tokens, offset ≤ token.offset := by
  intro token member
  obtain ⟨before, _, _, same⟩ := tokenization.slices token member
  omega

/-- Each token ends before the next one starts. -/
theorem ordered (tokenization : Tokenization offset cs tokens) :
    tokens.Pairwise fun token later => token.stop ≤ later.offset := by
  induction tokenization with
  | blanks => exact .nil
  | token _ _ _ _ rest induction =>
      refine .cons ?_ induction
      intro later member
      rw [Token.stop, utf8ByteSize_ofList]
      exact rest.offset_le later member

end Tokenization

theorem Token.IsLexical.offset_lt_stop {token : Token} (lexical : token.IsLexical) :
    token.offset < token.stop := by
  have positive : 0 < token.literal.utf8ByteSize := by
    obtain ⟨c, cs, split⟩ := List.exists_cons_of_ne_nil lexical.nonempty
    rw [← String.ofList_toList (s := token.literal), split, utf8ByteSize_ofList, byteLength]
    exact Nat.add_pos_left (Char.utf8Size_pos c) _
  unfold Token.stop
  omega

theorem tokenize_eq_ok {text : String} {tokens : List Token} :
    tokenize text = .ok tokens ↔ Tokenization 0 text.toList tokens := by
  constructor
  · intro found
    have start : (Cursor.ofString text).rest.length ≤ text.toList.length := Nat.le_refl _
    exact Cursor.tokenization_of_tokensWithin start found
  · intro tokenization
    obtain ⟨stop, found⟩ :=
      Cursor.tokensWithin_of_tokenization tokenization text.toList.length (Nat.le_refl _)
    exact congrArg Prod.fst found

/-- What a token can be written with is that token. -/
theorem tokenize_of_lexeme {kind : TokenKind} {text : String}
    (isLexeme : Lexeme kind text.toList) : tokenize text = .ok [⟨kind, text, 0⟩] := by
  have alone : Delimited text.toList [] kind :=
    AtBlank.delimited (by intro c head; cases head) text.toList kind
  obtain ⟨longest, terminated⟩ := (delimited_iff isLexeme).mp alone
  have tokenization : Tokenization 0 ([] ++ (text.toList ++ []))
      [⟨kind, String.ofList text.toList, 0⟩] :=
    .token (by simp) isLexeme longest terminated (.blanks (by simp))
  rw [tokenize_eq_ok]
  simpa using tokenization

/-- The tokens of a text are in the languages of their classes. -/
theorem isLexical_of_tokenize {text : String} {tokens : List Token}
    (found : tokenize text = .ok tokens) : ∀ token ∈ tokens, token.IsLexical :=
  (tokenize_eq_ok.mp found).lexemes

theorem offset_lt_of_tokenize {text : String} {tokens : List Token}
    (found : tokenize text = .ok tokens) :
    tokens.Pairwise fun token later => token.offset < later.offset := by
  have tokenization := tokenize_eq_ok.mp found
  apply tokenization.ordered.imp_of_mem
  intro token later member _ ordered
  exact Nat.lt_of_lt_of_le (tokenization.lexemes token member).offset_lt_stop ordered

/-- The token stands in the text at its offset. -/
def Token.StandsIn (token : Token) (text : String) : Prop :=
  ∃ before after, text = before ++ token.literal ++ after ∧ before.utf8ByteSize = token.offset

theorem standsIn_of_tokenize {text : String} {tokens : List Token}
    (found : tokenize text = .ok tokens) : ∀ token ∈ tokens, token.StandsIn text := by
  intro token member
  obtain ⟨before, after, split, same⟩ := (tokenize_eq_ok.mp found).slices token member
  refine ⟨String.ofList before, String.ofList after, ?_, ?_⟩
  · rw [← String.ofList_toList (s := text), split]
    simp [String.ofList_append, String.append_assoc]
  · rw [utf8ByteSize_ofList, same, Nat.zero_add]

theorem boundary_of_tokenize {text : String} {error : LexicalError}
    (failed : tokenize text = .error error) : (String.Pos.Raw.mk error.offset).IsValid text := by
  obtain ⟨before, after, split, same, -⟩ := Cursor.boundary_of_tokensWithin failed
  rw [String.Pos.Raw.isValid_iff_exists_append]
  refine ⟨String.ofList before, String.ofList after, ?_, ?_⟩
  · rw [← String.ofList_append, ← split]
    exact String.ofList_toList.symm
  · rw [String.Pos.Raw.ext_iff, String.byteIdx_rawEndPos, utf8ByteSize_ofList, same]
    exact Nat.zero_add _

/-- A text is tokenized exactly into its longest matches.  The tokens then stand in the text at
increasing offsets, and a fault lies between two characters or at an end of the text. -/
theorem tokenize_longest_matches (text : String) :
    (∀ tokens, tokenize text = .ok tokens ↔ Tokenization 0 text.toList tokens) ∧
      (∀ tokens, tokenize text = .ok tokens → (∀ token ∈ tokens, token.StandsIn text) ∧
        tokens.Pairwise fun token later => token.offset < later.offset) ∧
      ∀ error, tokenize text = .error error → (String.Pos.Raw.mk error.offset).IsValid text :=
  ⟨fun _ => tokenize_eq_ok,
    fun _ found => ⟨standsIn_of_tokenize found, offset_lt_of_tokenize found⟩,
    fun _ failed => boundary_of_tokenize failed⟩

/-- A pair of characters is not cut, a sign goes with its digits, and offsets count bytes. -/
theorem tokenize_longest_matches_accent :
    tokenize "\"é\" <=-2;" = .ok [⟨.string, "\"é\"", 0⟩, ⟨.operator, "<=", 5⟩,
        ⟨.integer, "-2", 7⟩, ⟨.operator, ";", 9⟩] ∧
      Tokenization 0 "\"é\" <=-2;".toList [⟨.string, "\"é\"", 0⟩, ⟨.operator, "<=", 5⟩,
        ⟨.integer, "-2", 7⟩, ⟨.operator, ";", 9⟩] ∧
      Token.StandsIn ⟨.integer, "-2", 7⟩ "\"é\" <=-2;" ∧
      tokenize "'é' 1.x" = .error ⟨.missingFraction, 7⟩ ∧
      (String.Pos.Raw.mk 7).IsValid "'é' 1.x" := by
  have found : tokenize "\"é\" <=-2;" = .ok [⟨.string, "\"é\"", 0⟩, ⟨.operator, "<=", 5⟩,
      ⟨.integer, "-2", 7⟩, ⟨.operator, ";", 9⟩] := by
    decide +kernel
  have failed : tokenize "'é' 1.x" = .error ⟨.missingFraction, 7⟩ := by
    decide +kernel
  obtain ⟨cut, stand, _⟩ := tokenize_longest_matches "\"é\" <=-2;"
  obtain ⟨_, _, boundary⟩ := tokenize_longest_matches "'é' 1.x"
  exact ⟨found, (cut _).mp found, (stand _ found).1 _ (by simp), failed, boundary _ failed⟩

end Procedural
