import Procedural.Proofs.Token.LongestMatch

/-!
# Tokens on one line

What is scanned in one go contains no line break, be it a token or what was taken when a
fault was found: a literal is given up where its line ends, and the characters of other tokens
are no white space.
-/

namespace Procedural.Scan

/-- The characters that were taken. -/
def taken : Scan → List Char
  | token _ lexeme _ => lexeme
  | fault _ taken _ => taken

/-- No character ends a line. -/
def OnOneLine (cs : List Char) : Prop :=
  ∀ c ∈ cs, isLineBreak c = false

theorem onOneLine_nil : OnOneLine [] :=
  List.forall_mem_nil _

theorem onOneLine_cons {c : Char} {cs : List Char} :
    OnOneLine (c :: cs) ↔ isLineBreak c = false ∧ OnOneLine cs :=
  List.forall_mem_cons

theorem onOneLine_singleton {c : Char} (notBreak : isLineBreak c = false) : OnOneLine [c] :=
  onOneLine_cons.mpr ⟨notBreak, onOneLine_nil⟩

theorem onOneLine_append {front back : List Char} :
    OnOneLine (front ++ back) ↔ OnOneLine front ∧ OnOneLine back :=
  List.forall_mem_append

/-- A property that both line breaks lack keeps a character on its line. -/
theorem isLineBreak_eq_false {property : Char → Bool} {c : Char} (holds : property c = true)
    (newline : property '\n' = false) (carriageReturn : property '\r' = false) :
    isLineBreak c = false := by
  rw [isLineBreak, Bool.or_eq_false_iff, beq_eq_false_iff_ne, beq_eq_false_iff_ne]
  constructor
  · rintro rfl
    rw [newline] at holds
    cases holds
  · rintro rfl
    rw [carriageReturn] at holds
    cases holds

theorem onOneLine_takeWhile {property : Char → Bool} (newline : property '\n' = false)
    (carriageReturn : property '\r' = false) (cs : List Char) :
    OnOneLine (cs.takeWhile property) := fun c member =>
  isLineBreak_eq_false (all_takeWhile cs c member) newline carriageReturn

theorem onOneLine_digits (cs : List Char) : OnOneLine (cs.takeWhile Char.isDigit) :=
  onOneLine_takeWhile (by decide) (by decide) cs

theorem taken_after (before : List Char) (scan : Scan) :
    (scan.after before).taken = before ++ scan.taken := by
  cases scan <;> rfl

theorem taken_word (kind : TokenKind) (wordKind : WordKind) (lexeme cs : List Char) :
    (word kind wordKind lexeme cs).taken = lexeme := by
  cases cs with
  | nil => rfl
  | cons c rest =>
      rw [word]
      split <;> rfl

theorem onOneLine_fraction {whole : List Char} (onLine : OnOneLine whole) (cs : List Char) :
    OnOneLine (fraction whole cs).taken := by
  rw [fraction]
  split
  · exact onOneLine_append.mpr ⟨onLine, onOneLine_singleton rfl⟩
  · rw [taken_word]
    exact onOneLine_append.mpr ⟨onLine, onOneLine_cons.mpr ⟨rfl, onOneLine_digits cs⟩⟩

theorem onOneLine_number (cs : List Char) : OnOneLine (number cs).taken := by
  rw [number]
  split
  · exact onOneLine_nil
  · dsimp only
    split
    · exact onOneLine_fraction (onOneLine_digits cs) _
    · rw [taken_word]
      exact onOneLine_digits cs

theorem onOneLine_closeCharacter {taken : List Char} (onLine : OnOneLine taken) (cs : List Char) :
    OnOneLine (closeCharacter taken cs).taken := by
  cases cs with
  | nil => exact onLine
  | cons c rest =>
      rw [closeCharacter]
      split
      · exact onOneLine_append.mpr ⟨onLine, onOneLine_singleton rfl⟩
      · exact onLine

/-- An escape sequence stands on one line. -/
theorem onOneLine_escape {c : Char} (isEscape : Quoted.isEscape c = true) :
    OnOneLine ['\\', c] :=
  onOneLine_cons.mpr
    ⟨rfl, onOneLine_singleton (isLineBreak_eq_false isEscape (by decide) (by decide))⟩

theorem onOneLine_character (cs : List Char) : OnOneLine (character cs).taken := by
  unfold character
  split
  · exact onOneLine_nil
  next c rest =>
    split
    next isEscape => exact onOneLine_closeCharacter (onOneLine_escape isEscape) rest
    · exact onOneLine_singleton rfl
  · exact onOneLine_singleton rfl
  next c rest _ _ =>
    split
    · exact onOneLine_nil
    · split
      · exact onOneLine_nil
      next visible =>
        exact onOneLine_closeCharacter (onOneLine_singleton (Bool.eq_false_iff.mpr visible)) rest

theorem onOneLine_string (cs : List Char) : OnOneLine (string cs).taken := by
  fun_induction string cs with
  | case1 => exact onOneLine_nil
  | case2 c rest isEscape induction =>
      rw [taken_after]
      exact onOneLine_append.mpr ⟨onOneLine_escape isEscape, induction⟩
  | case3 | case4 => exact onOneLine_singleton rfl
  | case5 => exact onOneLine_singleton rfl
  | case6 => exact onOneLine_nil
  | case7 c rest _ _ _ visible induction =>
      rw [taken_after]
      exact onOneLine_append.mpr
        ⟨onOneLine_singleton (Bool.eq_false_iff.mpr visible), induction⟩

theorem isLineBreak_of_not_isBlank {c : Char} (visible : isBlank c = false) :
    isLineBreak c = false := by
  simp only [isBlank, Bool.or_eq_false_iff] at visible
  obtain ⟨⟨⟨⟨-, -⟩, newline⟩, carriageReturn⟩, -⟩ := visible
  rw [isLineBreak, newline, carriageReturn, Bool.or_false]

theorem isLineBreak_of_isPair {first second : Char} (pair : isPair first second = true) :
    isLineBreak second = false := by
  apply isLineBreak_eq_false pair <;>
    unfold isPair <;> split <;> simp_all

theorem onOneLine_operator {c : Char} (visible : isBlank c = false) (cs : List Char) :
    OnOneLine (operator c cs).taken := by
  have first := isLineBreak_of_not_isBlank visible
  cases cs with
  | nil => exact onOneLine_singleton first
  | cons second rest =>
      rw [operator]
      split
      next pair =>
        exact onOneLine_cons.mpr ⟨first, onOneLine_singleton (isLineBreak_of_isPair pair)⟩
      · exact onOneLine_singleton first

/-- What is scanned in one go stands on one line. -/
theorem onOneLine_first {c : Char} (visible : isBlank c = false) (cs : List Char) :
    OnOneLine (first c cs).taken := by
  unfold first
  split
  next starts =>
    rw [identifier, taken_word]
    exact onOneLine_cons.mpr ⟨isLineBreak_of_not_isBlank visible,
      onOneLine_takeWhile (by decide) (by decide) cs⟩
  split
  · exact onOneLine_number _
  split
  · rw [taken_after]
    exact onOneLine_append.mpr ⟨onOneLine_singleton rfl, onOneLine_number cs⟩
  split
  · rw [taken_after]
    exact onOneLine_append.mpr ⟨onOneLine_singleton rfl, onOneLine_character cs⟩
  split
  · rw [taken_after]
    exact onOneLine_append.mpr ⟨onOneLine_singleton rfl, onOneLine_string cs⟩
  · exact onOneLine_operator visible cs

/-- Tokens stand on one line. -/
theorem Lexeme.onOneLine {kind : TokenKind} {lexeme : List Char}
    (isLexeme : Lexeme kind lexeme) : OnOneLine lexeme := by
  have atEnd : AtBlank [] := by
    intro c head
    cases head
  obtain ⟨c, cs, split, scanned⟩ := first_of_lexeme isLexeme (atEnd.delimited lexeme kind)
  rw [List.append_nil] at split
  have onLine := onOneLine_first (isLexeme.notBlank c (by rw [split, List.head?_cons])) cs
  rw [scanned] at onLine
  exact onLine

theorem OnOneLine.last {cs : List Char} (onLine : OnOneLine cs) : cs.getLast? ≠ some '\r' := by
  intro last
  have isBreak := onLine '\r' (List.mem_of_getLast? last)
  cases isBreak

/-- What ends in characters that were scanned in one go does not end in a carriage return. -/
theorem OnOneLine.last_append {cs : List Char} (onLine : OnOneLine cs) (nonempty : cs ≠ [])
    (front : List Char) : (front ++ cs).getLast? ≠ some '\r' := by
  rw [List.getLast?_append_of_ne_nil front nonempty]
  exact onLine.last

/-- No carriage return stands right before a place, or what stands behind it is no white space. -/
def AvoidsReturns (before after : List Char) : Prop :=
  before.getLast? ≠ some '\r' ∨ ∃ c rest, after = c :: rest ∧ isBlank c = false

theorem AvoidsReturns.prepend {front before after : List Char}
    (last : front.getLast? ≠ some '\r') (avoids : AvoidsReturns before after) :
    AvoidsReturns (front ++ before) after := by
  refine avoids.imp_left fun last' => ?_
  cases before with
  | nil => rwa [List.append_nil]
  | cons c before => rwa [List.getLast?_append_of_ne_nil front (List.cons_ne_nil c before)]

end Procedural.Scan
