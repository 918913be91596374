import Procedural.Proofs.Reader.Continuation
import Procedural.Proofs.Reader.Lookahead

/-!
# Where reading stumbles

A reading error points at the first token that no program continues with, or behind the
last token if some program continues with all of them.
-/

namespace Procedural

/-- Some program starts with the tokens. -/
def Continuable (tokens : List Token) : Prop :=
  ∃ more program, Program.ofTokens (tokens ++ more) = .ok program

/-- How reading fails. -/
theorem Program.ofTokens_eq_error {tokens : List Token} {error : ReadingError}
    (failed : Program.ofTokens tokens = .error error) :
    ∃ why rest, Reader.program tokens.length tokens = .fail why rest ∧
      error = (TokenStream.ofList tokens).error why rest := by
  unfold Program.ofTokens TokenStream.readProgram at failed
  split at failed
  · cases failed
  next why rest read =>
    cases failed
    exact ⟨why, rest, read, rfl⟩

/-- Where reading fails, the tokens before that place begin some program, and no program begins
with them and the token at that place. -/
theorem continuable_of_fail {tokens rest : List Token} {why : Obstacle}
    (failed : Reader.program tokens.length tokens = .fail why rest) :
    ∃ taken, tokens = taken ++ rest ∧ Continuable taken ∧
      ∀ found later, rest = found :: later → ¬ Continuable (taken ++ [found]) := by
  obtain ⟨taken, more, program, split, derived⟩ :=
    (Reader.viable_program _).continues _ _ _ failed
  refine ⟨taken, split, ⟨more, program, Program.ofTokens_of_isProgram derived⟩, ?_⟩
  rintro found later rfl ⟨others, accepted, read⟩
  -- Reading does not look behind the token it fails at, so it fails there in every longer list.
  have steady := Reader.steady_program tokens.length (taken ++ [found] ++ others).length
  have whole : tokens = taken ++ [found] ++ later := by simp [split]
  have failedAlike := steady.same (taken ++ [found]) later others (.fail why [found]) (by simp)
    (by rw [← whole]) (Nat.le_refl _) (by simp [Outcome.rest]) (by rw [← whole, failed]; rfl)
  have succeeded := Reader.complete_program (Program.ofTokens_eq_ok.mp read) _ (Nat.le_refl _)
  rw [succeeded] at failedAlike
  cases failedAlike

/-- The token at an unexpected place is the first one that no program continues with. -/
theorem Program.ofTokens_unexpected {tokens : List Token} {what : Expectation} {found : Token}
    (failed : Program.ofTokens tokens = .error (.unexpected what found)) :
    ∃ taken later, tokens = taken ++ found :: later ∧ Continuable taken ∧
      ¬ Continuable (taken ++ [found]) := by
  obtain ⟨why, rest, failedReader, same⟩ := Program.ofTokens_eq_error failed
  obtain ⟨taken, rfl, continuable, blocked⟩ := continuable_of_fail failedReader
  cases why with
  | invalidLiteral token => cases same
  | expected expectation =>
      cases rest with
      | nil => cases same
      | cons first later =>
          cases same
          exact ⟨taken, later, rfl, continuable, blocked found later rfl⟩

/-- Where tokens are missing at the end, all of them begin a program. -/
theorem Program.ofTokens_unexpectedEnd {tokens : List Token} {what : Expectation} {offset : Nat}
    (failed : Program.ofTokens tokens = .error (.unexpectedEnd what offset)) :
    Continuable tokens ∧ offset = (TokenStream.ofList tokens).stop := by
  obtain ⟨why, rest, failedReader, same⟩ := Program.ofTokens_eq_error failed
  obtain ⟨taken, rfl, continuable, _⟩ := continuable_of_fail failedReader
  cases why with
  | invalidLiteral token => cases same
  | expected expectation =>
      cases rest with
      | nil =>
          cases same
          rw [List.append_nil]
          exact ⟨continuable, rfl⟩
      | cons first later => cases same

theorem eq_of_same_token {tokens : List Token}
    (ordered : tokens.Pairwise fun token later => token.offset < later.offset) {found : Token}
    {i j : Nat} (here : tokens[i]? = some found) (there : tokens[j]? = some found) : j = i := by
  have distinct : tokens.Nodup :=
    ordered.imp fun before same => Nat.ne_of_lt before (congrArg Token.offset same)
  obtain ⟨inside, _⟩ := List.getElem?_eq_some_iff.mp there
  exact (List.getElem?_inj inside distinct).mp (there.trans here.symm)

/-- The token that reading stumbles over is the first one that no program continues with.  Where
tokens are missing at the end, a program begins with all of them, and the place is the end of
the last one. -/
theorem Program.ofTokens_stumbles {text : String} {tokens : List Token}
    (scanned : tokenize text = .ok tokens) :
    (∀ what found, Program.ofTokens tokens = .error (.unexpected what found) →
      ∃ i, tokens[i]? = some found ∧ (∀ j, tokens[j]? = some found → j = i) ∧
        Continuable (tokens.take i) ∧ ¬ Continuable (tokens.take (i + 1))) ∧
      ∀ what offset, Program.ofTokens tokens = .error (.unexpectedEnd what offset) →
        (∃ more program, more ≠ [] ∧ Program.ofTokens (tokens ++ more) = .ok program) ∧
          ∃ last, tokens.getLast? = some last ∧ offset = last.stop := by
  constructor
  · intro what found failed
    obtain ⟨taken, later, rfl, continuable, blocked⟩ := Program.ofTokens_unexpected failed
    have here : (taken ++ found :: later)[taken.length]? = some found := by simp
    refine ⟨taken.length, here, ?_, ?_, ?_⟩
    · exact fun j there => eq_of_same_token (offset_lt_of_tokenize scanned) here there
    · rwa [List.take_left]
    · rwa [List.take_append, List.take_of_length_le (Nat.le_succ _), Nat.add_sub_cancel_left]
  · intro what offset failed
    obtain ⟨⟨more, program, accepted⟩, rfl⟩ := Program.ofTokens_unexpectedEnd failed
    refine ⟨⟨more, program, ?_, accepted⟩, ?_⟩
    · rintro rfl
      rw [List.append_nil, failed] at accepted
      cases accepted
    · cases last : tokens.getLast? with
      | none =>
          rw [List.getLast?_eq_none_iff.mp last] at failed
          cases failed
      | some token => exact ⟨token, rfl, by simp [TokenStream.ofList, last]⟩

/-- A declaration needs a type or a value, which is missing at the semicolon or at the end. -/
theorem Program.ofTokens_stumbles_declaration :
    ∃ tokens, tokenize "FUN f ( ) DO LET x ;" = .ok tokens ∧
      Program.ofTokens tokens =
        .error (.unexpected (.typeOrValue "x") ⟨.operator, ";", 19⟩) ∧
      Continuable (tokens.take 7) ∧ ¬ Continuable (tokens.take 8) ∧
      ∃ fewer, tokenize "FUN f ( ) DO LET x" = .ok fewer ∧
        Program.ofTokens fewer = .error (.unexpectedEnd (.typeOrValue "x") 18) ∧
        ∃ more program, more ≠ [] ∧ Program.ofTokens (fewer ++ more) = .ok program := by
  have declared : tokenize "FUN f ( ) DO LET x" = .ok [⟨.identifier, "FUN", 0⟩,
      ⟨.identifier, "f", 4⟩, ⟨.operator, "(", 6⟩, ⟨.operator, ")", 8⟩, ⟨.identifier, "DO", 10⟩,
      ⟨.identifier, "LET", 13⟩, ⟨.identifier, "x", 17⟩] := by
    decide +kernel
  have ended : tokenize "FUN f ( ) DO LET x ;" = .ok [⟨.identifier, "FUN", 0⟩,
      ⟨.identifier, "f", 4⟩, ⟨.operator, "(", 6⟩, ⟨.operator, ")", 8⟩, ⟨.identifier, "DO", 10⟩,
      ⟨.identifier, "LET", 13⟩, ⟨.identifier, "x", 17⟩, ⟨.operator, ";", 19⟩] := by
    decide +kernel
  obtain ⟨stumbles, _⟩ := Program.ofTokens_stumbles ended
  obtain ⟨_, runsOut⟩ := Program.ofTokens_stumbles declared
  obtain ⟨i, _, only, continuable, blocked⟩ :=
    stumbles (.typeOrValue "x") ⟨.operator, ";", 19⟩ rfl
  obtain rfl : 7 = i := only 7 rfl
  exact ⟨_, ended, rfl, continuable, blocked, _, declared, rfl,
    (runsOut (.typeOrValue "x") 18 rfl).1⟩

end Procedural
