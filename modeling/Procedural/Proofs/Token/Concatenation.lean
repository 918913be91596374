import Procedural.Proofs.Token.Tokenization

/-!
# Texts joined by white space

White space separates what stands before it from what stands behind it: no token, no
look at the next character and no fault reaches across it.  So a text with white space
and another text behind it has the tokens of the first and then those of the second,
or the fault of the second, with places counted on.
-/

namespace Procedural

open Scan

/-- The token at a place that is some bytes further on. -/
def Token.later (amount : Nat) (token : Token) : Token :=
  { token with offset := token.offset + amount }

/-- The error at a place that is some bytes further on. -/
def LexicalError.later (amount : Nat) (error : LexicalError) : LexicalError :=
  { error with offset := error.offset + amount }

/-- What scanning comes to behind some tokens, in a place that is some bytes further on. -/
def continueTokens (tokens : List Token) (amount : Nat) :
    Except LexicalError (List Token) → Except LexicalError (List Token)
  | .ok found => .ok (tokens ++ found.map (Token.later amount))
  | .error error => .error (error.later amount)

/-- What delimits a token does so with anything behind it, and where nothing stood white space
may follow. -/
theorem Scan.Delimited.append {lexeme rest more : List Char} {kind : TokenKind}
    (delimited : Delimited lexeme rest kind) (atBlank : AtBlank more) :
    Delimited lexeme (rest ++ more) kind := by
  cases rest with
  | nil => exact atBlank.delimited lexeme kind
  | cons c rest => cases kind <;> exact delimited

namespace Cursor

/-- White space in front only moves the place at which scanning starts. -/
theorem tokensWithin_blanks {blanks : List Char} (allBlank : ∀ c ∈ blanks, isBlank c = true)
    (cs : List Char) (budget offset : Nat) :
    (tokensWithin budget ⟨blanks ++ cs, offset⟩).1 =
      (tokensWithin budget ⟨cs, offset + byteLength blanks⟩).1 := by
  cases budget with
  | zero => rfl
  | succ budget =>
      have skipped : (Cursor.mk (blanks ++ cs) offset).skipBlanks =
          (Cursor.mk cs (offset + byteLength blanks)).skipBlanks := by
        simp only [skipBlanks, advance, List.takeWhile_append_of_pos allBlank,
          List.dropWhile_append_of_pos allBlank, byteLength_append, Nat.add_assoc]
      simp only [tokensWithin, skipped]

/-- Scanning finds the same tokens and the same fault wherever it starts counting, and with every
budget that covers the text. -/
theorem tokensWithin_later (amount : Nat) : ∀ (budget budget' offset : Nat) (cs : List Char),
    cs.length ≤ budget → cs.length ≤ budget' →
    (tokensWithin budget' ⟨cs, offset + amount⟩).1 =
      continueTokens [] amount (tokensWithin budget ⟨cs, offset⟩).1 := by
  intro budget
  induction budget with
  | zero =>
      intro budget' offset cs enough _
      obtain rfl := List.length_eq_zero_iff.mp (Nat.le_zero.mp enough)
      cases budget' <;> rfl
  | succ budget induction =>
      intro budget' offset cs enough enough'
      cases budget' with
      | zero =>
          obtain rfl := List.length_eq_zero_iff.mp (Nat.le_zero.mp enough')
          rfl
      | succ budget' =>
          obtain ⟨blanks, _, split, _, visible⟩ := (Cursor.mk cs offset).skipBlanks_split
          have moved : (Cursor.mk cs (offset + amount)).skipBlanks =
              ⟨(Cursor.mk cs offset).skipBlanks.rest,
                (Cursor.mk cs offset).skipBlanks.offset + amount⟩ := by
            simp only [skipBlanks, advance, Nat.add_right_comm]
          simp only [tokensWithin, moved]
          generalize (Cursor.mk cs offset).skipBlanks = start at split visible
          obtain ⟨rest, place⟩ := start
          cases rest with
          | nil => rfl
          | cons c rest =>
              dsimp only
              cases scanned : first c rest with
              | fault why taken left =>
                  simp only [advance, continueTokens, LexicalError.later]
                  split <;> simp only [Nat.add_right_comm]
              | token kind lexeme left =>
                  obtain ⟨taken, isLexeme, _⟩ := lexeme_of_first (visible c rfl) scanned
                  have shorter : left.length < cs.length := by
                    have positive := List.length_pos_iff.mpr isLexeme.nonempty
                    change cs = blanks ++ c :: rest at split
                    rw [split, ← taken]
                    simp only [List.length_append]
                    omega
                  have later := induction budget' (place + byteLength lexeme) left (by omega)
                    (by omega)
                  rw [Nat.add_right_comm] at later
                  simp only [advance]
                  generalize tokensWithin budget' _ = outcome' at later ⊢
                  generalize tokensWithin budget _ = outcome at later ⊢
                  obtain ⟨found', stop'⟩ := outcome'
                  obtain ⟨found, stop⟩ := outcome
                  obtain rfl : found' = continueTokens [] amount found := later
                  cases found <;> rfl

/-- Behind a text and white space scanning goes on as it does at the start of a text. -/
theorem tokensWithin_joined {offset : Nat} {cs : List Char} {tokens : List Token}
    (tokenization : Tokenization offset cs tokens) {gap : List Char} (nonempty : gap ≠ [])
    (allBlank : ∀ c ∈ gap, isBlank c = true) (back : List Char) :
    ∀ budget, (cs ++ (gap ++ back)).length ≤ budget →
      (tokensWithin budget ⟨cs ++ (gap ++ back), offset⟩).1 =
        continueTokens tokens (offset + byteLength cs + byteLength gap)
          (tokensWithin back.length ⟨back, 0⟩).1 := by
  have atBlank : AtBlank (gap ++ back) := by
    obtain ⟨first, others, rfl⟩ := List.exists_cons_of_ne_nil nonempty
    rintro c head
    cases head
    exact allBlank _ (List.mem_cons_self ..)
  induction tokenization with
  | @blanks offset blanks blanksBlank =>
      intro budget enough
      simp only [List.length_append] at enough
      have later := tokensWithin_later (offset + byteLength blanks + byteLength gap) back.length
        budget 0 back (Nat.le_refl _) (by omega)
      rw [Nat.zero_add] at later
      rw [tokensWithin_blanks blanksBlank, tokensWithin_blanks allBlank, later]
  | @token offset blanks lexeme rest kind tokens blanksBlank isLexeme longest terminated _
      induction =>
      intro budget enough
      have delimited := ((delimited_iff isLexeme).mpr ⟨longest, terminated⟩).append atBlank
      have positive := List.length_pos_iff.mpr isLexeme.nonempty
      simp only [List.length_append] at enough
      obtain ⟨budget, rfl⟩ : ∃ fewer, budget = fewer + 1 := ⟨budget - 1, by omega⟩
      have later := induction budget (by simp only [List.length_append]; omega)
      simp only [List.append_assoc, byteLength_append, ← Nat.add_assoc] at later delimited ⊢
      rw [tokensWithin_lexeme blanksBlank isLexeme delimited]
      generalize tokensWithin budget _ = outcome at later ⊢
      obtain ⟨found, stop⟩ := outcome
      change found = _ at later
      subst later
      cases (tokensWithin back.length ⟨back, 0⟩).1 <;> rfl

end Cursor

/-- A text that has tokens does not disturb a text that stands behind it and some white space: if
that text has tokens, they follow, and if it has a fault, that is the fault, each of them at a place
that is further on by the bytes in front. -/
theorem tokenize_joined {front gap : String} {tokens : List Token}
    (scanned : tokenize front = .ok tokens) (nonempty : gap ≠ "")
    (allBlank : ∀ c ∈ gap.toList, isBlank c = true) (back : String) :
    (∀ found, tokenize back = .ok found →
      tokenize (front ++ gap ++ back) =
        .ok (tokens ++ found.map (Token.later (front ++ gap).utf8ByteSize))) ∧
    (∀ error, tokenize back = .error error →
      tokenize (front ++ gap ++ back) =
        .error (error.later (front ++ gap).utf8ByteSize)) := by
  have gapNonempty : gap.toList ≠ [] := by simpa using nonempty
  have bytes : (front ++ gap).utf8ByteSize = byteLength front.toList + byteLength gap.toList := by
    rw [← byteLength_append, ← utf8ByteSize_ofList, String.ofList_append, String.ofList_toList,
      String.ofList_toList]
  have joined : tokenize (front ++ gap ++ back) =
      continueTokens tokens (front ++ gap).utf8ByteSize (tokenize back) := by
    have whole := Cursor.tokensWithin_joined (tokenize_eq_ok.mp scanned) gapNonempty allBlank
      back.toList _ (Nat.le_refl _)
    rw [bytes, ← Nat.zero_add (byteLength front.toList)]
    rw [← List.append_assoc, ← String.toList_append, ← String.toList_append] at whole
    exact whole
  constructor
  · intro found scannedBack
    rw [joined, scannedBack, continueTokens]
  · intro error failed
    rw [joined, failed, continueTokens]

/-- A minus sign before white space stays an operator whatever follows, and the accent counts as
two bytes. -/
theorem tokenize_joined_minus :
    tokenize "é -" = .ok [⟨.operator, "é", 0⟩, ⟨.operator, "-", 3⟩] ∧
      (" \t" ≠ "" ∧ ∀ c ∈ " \t".toList, isBlank c = true) ∧
      tokenize ("é -" ++ " \t" ++ "5 ;") =
        .ok [⟨.operator, "é", 0⟩, ⟨.operator, "-", 3⟩, ⟨.integer, "5", 6⟩, ⟨.operator, ";", 8⟩] ∧
      tokenize ("é -" ++ " \t" ++ "x -007") = .error ⟨.leadingZero, 9⟩ := by
  have scanned : tokenize "é -" = .ok [⟨.operator, "é", 0⟩, ⟨.operator, "-", 3⟩] := by
    decide +kernel
  have nonempty : " \t" ≠ "" := by decide
  have allBlank : ∀ c ∈ " \t".toList, isBlank c = true := List.all_eq_true.mp (by decide)
  have followed := (tokenize_joined scanned nonempty allBlank "5 ;").1
    [⟨.integer, "5", 0⟩, ⟨.operator, ";", 2⟩] (by decide +kernel)
  have stopped := (tokenize_joined scanned nonempty allBlank "x -007").2 ⟨.leadingZero, 3⟩
    (by decide +kernel)
  exact ⟨scanned, ⟨nonempty, allBlank⟩, followed, stopped⟩

end Procedural
