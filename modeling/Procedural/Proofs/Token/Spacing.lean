import Procedural.Layout.Line
import Procedural.Proofs.Token.Tokenization

/-!
# Tokens of spaced text

A text is spaced if white space stands behind each of its words.  Its tokens are
exactly these words, whatever the amount of white space, and lines of words are
written as spaced text.
-/

namespace Procedural

open Scan

/-- A text that is one token of some class. -/
def IsWord (text : String) : Prop :=
  ∃ kind, Lexeme kind text.toList

/-- Words with white space behind each of them. -/
inductive Spaced : List Char → List String → Prop where
  | blanks {blanks : List Char} :
      (∀ c ∈ blanks, isBlank c = true) → Spaced blanks []
  | word (blanks : List Char) {rest : List Char} {word : String} {words : List String} :
      (∀ c ∈ blanks, isBlank c = true) → IsWord word → AtBlank rest →
      Spaced rest words →
      Spaced (blanks ++ (word.toList ++ rest)) (word :: words)

namespace Spaced

/-- More white space in front changes no word. -/
theorem blanks_append (blanks : List Char) {cs : List Char} {words : List String}
    (allBlank : ∀ c ∈ blanks, isBlank c = true) (spaced : Spaced cs words) :
    Spaced (blanks ++ cs) words := by
  have both : ∀ {more : List Char}, (∀ c ∈ more, isBlank c = true) →
      ∀ c ∈ blanks ++ more, isBlank c = true := by
    intro more moreBlank c member
    rcases List.mem_append.mp member with inBlanks | inMore
    · exact allBlank c inBlanks
    · exact moreBlank c inMore
  cases spaced with
  | blanks moreBlank => exact .blanks (both moreBlank)
  | word more moreBlank isWord atBlank spaced =>
      rw [← List.append_assoc]
      exact .word (blanks ++ more) (both moreBlank) isWord atBlank spaced

/-- Words with one space between them, before something that starts with white space. -/
theorem intercalate_append {words later : List String} {rest : List Char}
    (areWords : ∀ word ∈ words, IsWord word) (atBlank : AtBlank rest)
    (spaced : Spaced rest later) :
    Spaced ([' '].intercalate (words.map String.toList) ++ rest) (words ++ later) := by
  induction words with
  | nil => exact spaced
  | cons word words induction =>
      have isWord := areWords word (by simp)
      have remaining := induction fun next member => areWords next (by simp [member])
      cases words with
      | nil =>
          have single := Spaced.word [] (by simp) isWord atBlank spaced
          simpa using single
      | cons next words =>
          have gap := remaining.blanks_append [' '] (by simp [isBlank])
          have atGap : AtBlank ([' '] ++
              ([' '].intercalate ((next :: words).map String.toList) ++ rest)) := by
            intro c head
            cases head
            rfl
          have first := Spaced.word [] (by simp) isWord atGap gap
          simpa using first

end Spaced

/-- Lines of words are spaced text. -/
theorem Line.spaced_textList {lines : List Line}
    (areWords : ∀ line ∈ lines, ∀ word ∈ line.words, IsWord word) :
    Spaced (Line.textList lines).toList (lines.flatMap Line.words) := by
  induction lines with
  | nil => exact .blanks (by simp [Line.textList])
  | cons line lines induction =>
      have remaining := induction fun next member => areWords next (by simp [member])
      have afterBreak := remaining.blanks_append ['\n'] (by simp [isBlank])
      have atBreak : AtBlank (['\n'] ++ (Line.textList lines).toList) := by
        intro c head
        cases head
        rfl
      have words := Spaced.intercalate_append (areWords line (by simp)) atBreak afterBreak
      have indentation :
          ∀ c ∈ List.replicate (Line.indentWidth * line.depth) ' ', isBlank c = true := by
        intro c member
        rw [List.eq_of_mem_replicate member]
        rfl
      have indented := words.blanks_append _ indentation
      simpa [Line.textList, Line.text] using indented

/-- The tokens of spaced text are its words. -/
theorem Spaced.tokenization {cs : List Char} {words : List String} (spaced : Spaced cs words) :
    ∀ offset, ∃ tokens, Tokenization offset cs tokens ∧ tokens.map Token.literal = words := by
  induction spaced with
  | blanks allBlank => exact fun offset => ⟨[], .blanks allBlank, rfl⟩
  | @word blanks rest word words allBlank isWord atBlank _ induction =>
      intro offset
      obtain ⟨kind, isLexeme⟩ := isWord
      obtain ⟨longest, terminated⟩ :=
        (delimited_iff isLexeme).mp (atBlank.delimited word.toList kind)
      obtain ⟨tokens, later, literals⟩ :=
        induction (offset + byteLength blanks + byteLength word.toList)
      exact ⟨_, .token allBlank isLexeme longest terminated later, by simp [literals]⟩

theorem Cursor.tokensWithin_of_spaced {cs : List Char} {words : List String}
    (spaced : Spaced cs words) :
    ∀ budget offset, cs.length ≤ budget →
      ∃ tokens stop, tokensWithin budget ⟨cs, offset⟩ = (.ok tokens, stop) ∧
        tokens.map Token.literal = words ∧ ∀ token ∈ tokens, token.IsLexical := by
  intro budget offset enough
  obtain ⟨tokens, tokenization, literals⟩ := spaced.tokenization offset
  obtain ⟨stop, found⟩ := tokensWithin_of_tokenization tokenization budget enough
  exact ⟨tokens, stop, found, literals, tokenization.lexemes⟩

end Procedural
