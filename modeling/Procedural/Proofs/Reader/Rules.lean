import Procedural.Reader.Program

/-!
# Successes of readers

Each lemma says when a reader succeeds, in terms of the tokens before and after it.
A sequence of readers succeeds exactly if its parts do, one on what the other left.
-/

namespace Procedural.Reader

variable {α β : Type}

theorem pure_eq_ok {value result : α} {tokens rest : List Token} :
    (pure value : Reader α) tokens = .ok result rest ↔ result = value ∧ rest = tokens := by
  constructor
  · intro read
    cases read
    exact ⟨rfl, rfl⟩
  · rintro ⟨rfl, rfl⟩
    rfl

theorem bind_of_ok {reader : Reader α} {next : α → Reader β} {value : α}
    {tokens middle : List Token} (read : reader tokens = .ok value middle) :
    (reader >>= next) tokens = next value middle := by
  change Reader.bind reader next tokens = _
  simp only [Reader.bind, read]

theorem bind_of_fail {reader : Reader α} {next : α → Reader β} {why : Obstacle}
    {tokens rest : List Token} (failed : reader tokens = .fail why rest) :
    (reader >>= next) tokens = .fail why rest := by
  change Reader.bind reader next tokens = _
  simp only [Reader.bind, failed]

protected theorem bind_congr {reader reader' : Reader α} {tokens' : List Token}
    (same : reader tokens = reader' tokens') (next : α → Reader β) :
    (reader >>= next) tokens = (reader' >>= next) tokens' := by
  cases reached : reader' tokens' with
  | ok value rest => rw [bind_of_ok (same.trans reached), bind_of_ok reached]
  | fail why rest => rw [bind_of_fail (same.trans reached), bind_of_fail reached]

protected theorem bind_assoc {γ : Type} (reader : Reader α) (next : α → Reader β)
    (last : β → Reader γ) :
    reader >>= next >>= last = reader >>= fun value => next value >>= last := by
  funext tokens
  cases reached : reader tokens with
  | ok value rest =>
      have first : (reader >>= next) tokens = next value rest := bind_of_ok reached
      rw [bind_of_ok reached]
      cases followed : next value rest with
      | ok result rest' => rw [bind_of_ok (first.trans followed), bind_of_ok followed]
      | fail why rest' =>
          rw [bind_of_fail (first.trans followed), bind_of_fail followed]
  | fail why rest =>
      rw [bind_of_fail reached, bind_of_fail (bind_of_fail reached)]

theorem bind_eq_ok {reader : Reader α} {next : α → Reader β} {result : β}
    {tokens rest : List Token} :
    (reader >>= next) tokens = .ok result rest ↔
      ∃ value middle, reader tokens = .ok value middle ∧ next value middle = .ok result rest := by
  change Reader.bind reader next tokens = _ ↔ _
  unfold Reader.bind
  cases reader tokens with
  | ok value middle =>
      constructor
      · exact fun read => ⟨value, middle, rfl, read⟩
      · rintro ⟨value', middle', equal, read⟩
        cases equal
        exact read
  | fail why middle =>
      constructor
      · intro read
        cases read
      · rintro ⟨value', middle', equal, _⟩
        cases equal

theorem bind_eq_fail {reader : Reader α} {next : α → Reader β} {why : Obstacle}
    {tokens rest : List Token} (failed : (reader >>= next) tokens = .fail why rest) :
    reader tokens = .fail why rest ∨
      ∃ value middle, reader tokens = .ok value middle ∧ next value middle = .fail why rest := by
  cases read : reader tokens with
  | ok value middle =>
      rw [bind_of_ok read] at failed
      exact .inr ⟨value, middle, rfl, failed⟩
  | fail why' middle =>
      rw [bind_of_fail read] at failed
      cases failed
      exact .inl rfl

theorem map_eq_ok {reader : Reader α} {change : α → β} {result : β}
    {tokens rest : List Token} :
    (change <$> reader) tokens = .ok result rest ↔
      ∃ value, reader tokens = .ok value rest ∧ result = change value := by
  change (reader >>= fun value => pure (change value)) tokens = _ ↔ _
  rw [bind_eq_ok]
  constructor
  · rintro ⟨value, middle, read, finished⟩
    obtain ⟨rfl, rfl⟩ := pure_eq_ok.mp finished
    exact ⟨value, read, rfl⟩
  · rintro ⟨value, read, rfl⟩
    exact ⟨value, rest, read, pure_eq_ok.mpr ⟨rfl, rfl⟩⟩

theorem missing_ne_ok {what : Expectation} {result : α} {tokens rest : List Token} :
    (missing what : Reader α) tokens ≠ .ok result rest := by
  intro read
  cases read

theorem symbol_eq_ok {literal context : String} {token : Token} {tokens rest : List Token} :
    symbol literal context tokens = .ok token rest ↔
      tokens = token :: rest ∧ token.literal = literal := by
  cases tokens with
  | nil => simp [symbol]
  | cons first tail =>
      by_cases equal : first.literal = literal
      · simp only [symbol, if_pos equal, Outcome.ok.injEq, List.cons.injEq]
        constructor
        · rintro ⟨rfl, rfl⟩
          exact ⟨⟨rfl, rfl⟩, equal⟩
        · exact fun read => read.1
      · simp only [symbol, if_neg equal, List.cons.injEq]
        constructor
        · intro read
          cases read
        · rintro ⟨⟨rfl, rfl⟩, spelled⟩
          exact absurd spelled equal

theorem identifier_eq_ok {context name : String} {tokens rest : List Token} :
    identifier context tokens = .ok name rest ↔
      ∃ token, tokens = token :: rest ∧ token.kind = .identifier ∧ token.literal = name := by
  cases tokens with
  | nil => simp [identifier]
  | cons first tail =>
      by_cases isIdentifier : first.kind = .identifier
      · simp only [identifier, if_pos isIdentifier, Outcome.ok.injEq, List.cons.injEq]
        constructor
        · rintro ⟨rfl, rfl⟩
          exact ⟨first, ⟨rfl, rfl⟩, isIdentifier, rfl⟩
        · rintro ⟨token, ⟨rfl, rfl⟩, _, rfl⟩
          exact ⟨rfl, rfl⟩
      · simp only [identifier, if_neg isIdentifier, List.cons.injEq]
        constructor
        · intro read
          cases read
        · rintro ⟨token, ⟨rfl, rfl⟩, spelled, _⟩
          exact absurd spelled isIdentifier

theorem accept_of_eq {literal : String} {token : Token} {rest : List Token}
    (spelled : token.literal = literal) :
    accept literal (token :: rest) = .ok true rest :=
  if_pos spelled

theorem accept_of_ne {literal : String} {token : Token} {rest : List Token}
    (other : token.literal ≠ literal) :
    accept literal (token :: rest) = .ok false (token :: rest) :=
  if_neg other

theorem ifAccept_of_eq {literal : String} {yes no : Reader α} {token : Token}
    {rest : List Token} (spelled : token.literal = literal) :
    (do if ← accept literal then yes else no) (token :: rest) = yes rest :=
  bind_of_ok (accept_of_eq spelled)

theorem ifAccept_of_ne {literal : String} {yes no : Reader α} {token : Token}
    {rest : List Token} (other : token.literal ≠ literal) :
    (do if ← accept literal then yes else no) (token :: rest) = no (token :: rest) :=
  bind_of_ok (accept_of_ne other)

/-- A choice by whether the first token, which is then consumed, has the given characters. -/
theorem ifAccept_eq_ok {literal : String} {yes no : Reader α} {result : α}
    {tokens rest : List Token} :
    (do if ← accept literal then yes else no) tokens = .ok result rest ↔
      (∃ token tail, tokens = token :: tail ∧ token.literal = literal ∧
        yes tail = .ok result rest) ∨
      ((∀ token, tokens.head? = some token → token.literal ≠ literal) ∧
        no tokens = .ok result rest) := by
  rw [bind_eq_ok]
  cases tokens with
  | nil => simp [accept]
  | cons first tail =>
      by_cases equal : first.literal = literal
      · simp only [accept, if_pos equal, Outcome.ok.injEq, List.head?_cons]
        constructor
        · rintro ⟨accepted, middle, ⟨rfl, rfl⟩, read⟩
          exact .inl ⟨first, tail, rfl, equal, read⟩
        · rintro (⟨token, tail', same, _, read⟩ | ⟨different, _⟩)
          · cases same
            exact ⟨true, tail, ⟨rfl, rfl⟩, read⟩
          · exact absurd equal (different first rfl)
      · simp only [accept, if_neg equal, Outcome.ok.injEq, List.head?_cons]
        constructor
        · rintro ⟨accepted, middle, ⟨rfl, rfl⟩, read⟩
          refine .inr ⟨?_, read⟩
          intro token head
          cases head
          exact equal
        · rintro (⟨token, tail', same, spelled, _⟩ | ⟨_, read⟩)
          · cases same
            exact absurd spelled equal
          · exact ⟨false, first :: tail, ⟨rfl, rfl⟩, read⟩

theorem ifAccept_eq_fail {literal : String} {yes no : Reader α} {why : Obstacle}
    {tokens rest : List Token}
    (failed : (do if ← accept literal then yes else no) tokens = .fail why rest) :
    (∃ token tail, tokens = token :: tail ∧ token.literal = literal ∧
        yes tail = .fail why rest) ∨
      ((∀ token, tokens.head? = some token → token.literal ≠ literal) ∧
        no tokens = .fail why rest) := by
  rcases bind_eq_fail failed with refused | ⟨accepted, middle, read, failedNext⟩
  · cases tokens with
    | nil => cases refused
    | cons first tail =>
        simp only [accept] at refused
        split at refused <;> cases refused
  · cases tokens with
    | nil =>
        cases read
        exact .inr ⟨by simp, failedNext⟩
    | cons first tail =>
        by_cases equal : first.literal = literal
        · simp only [accept, if_pos equal] at read
          cases read
          exact .inl ⟨first, _, rfl, equal, failedNext⟩
        · simp only [accept, if_neg equal] at read
          cases read
          refine .inr ⟨?_, failedNext⟩
          intro token head
          cases head
          exact equal

/-- A choice by whether the first token, which stays, has the given characters. -/
theorem ifSees_eq_ok {literal : String} {yes no : Reader α} {result : α}
    {tokens rest : List Token} :
    (do if ← sees literal then yes else no) tokens = .ok result rest ↔
      (∃ token, tokens.head? = some token ∧ token.literal = literal ∧
        yes tokens = .ok result rest) ∨
      ((∀ token, tokens.head? = some token → token.literal ≠ literal) ∧
        no tokens = .ok result rest) := by
  rw [bind_eq_ok]
  cases tokens with
  | nil => simp [sees]
  | cons first tail =>
      simp only [sees, Outcome.ok.injEq, List.head?_cons]
      by_cases equal : first.literal = literal
      · constructor
        · rintro ⟨seen, middle, ⟨rfl, rfl⟩, read⟩
          rw [if_pos (by simpa using equal)] at read
          exact .inl ⟨first, rfl, equal, read⟩
        · rintro (⟨token, _, _, read⟩ | ⟨different, _⟩)
          · refine ⟨true, first :: tail, ⟨by simpa using equal, rfl⟩, ?_⟩
            exact read
          · exact absurd equal (different first rfl)
      · constructor
        · rintro ⟨seen, middle, ⟨rfl, rfl⟩, read⟩
          rw [if_neg (by simpa using equal)] at read
          refine .inr ⟨?_, read⟩
          intro token head
          cases head
          exact equal
        · rintro (⟨token, head, spelled, _⟩ | ⟨_, read⟩)
          · cases head
            exact absurd spelled equal
          · exact ⟨false, first :: tail, ⟨by simpa using equal, rfl⟩, read⟩

theorem ifSees_eq_fail {literal : String} {yes no : Reader α} {why : Obstacle}
    {tokens rest : List Token}
    (failed : (do if ← sees literal then yes else no) tokens = .fail why rest) :
    yes tokens = .fail why rest ∨
      ((∀ token, tokens.head? = some token → token.literal ≠ literal) ∧
        no tokens = .fail why rest) := by
  rcases bind_eq_fail failed with refused | ⟨seen, middle, read, failedNext⟩
  · cases tokens <;> cases refused
  · cases tokens with
    | nil =>
        cases read
        exact .inr ⟨by simp, failedNext⟩
    | cons first tail =>
        obtain ⟨rfl, rfl⟩ := Outcome.ok.inj read
        split at failedNext
        next equal => exact .inl failedNext
        next different =>
          refine .inr ⟨?_, failedNext⟩
          intro token head
          cases head
          simpa using different

/-- An item is read exactly if its introducing symbol stands before it. -/
theorem introduced_eq_ok {literal : String} {item : Reader α} {result : Option α}
    {tokens rest : List Token} :
    introduced literal item tokens = .ok result rest ↔
      (∃ token tail value, tokens = token :: tail ∧ token.literal = literal ∧
        item tail = .ok value rest ∧ result = some value) ∨
      ((∀ token, tokens.head? = some token → token.literal ≠ literal) ∧
        result = none ∧ rest = tokens) := by
  unfold introduced
  rw [ifAccept_eq_ok]
  constructor
  · rintro (⟨token, tail, split, spelled, read⟩ | ⟨different, read⟩)
    · obtain ⟨value, middle, readItem, finished⟩ := bind_eq_ok.mp read
      obtain ⟨rfl, rfl⟩ := pure_eq_ok.mp finished
      exact .inl ⟨token, tail, value, split, spelled, readItem, rfl⟩
    · exact .inr ⟨different, pure_eq_ok.mp read⟩
  · rintro (⟨token, tail, value, split, spelled, readItem, rfl⟩ | ⟨different, rfl, rfl⟩)
    · exact .inl ⟨token, tail, split, spelled,
        bind_eq_ok.mpr ⟨value, rest, readItem, pure_eq_ok.mpr ⟨rfl, rfl⟩⟩⟩
    · exact .inr ⟨different, pure_eq_ok.mpr ⟨rfl, rfl⟩⟩

/-- What follows an introduced item may as well be chosen with the item. -/
theorem bind_introduced (literal : String) (item : Reader α) (next : Option α → Reader β) :
    introduced literal item >>= next = (do
      if ← accept literal then item >>= fun value => next (some value)
      else next none) := by
  rw [introduced, Reader.bind_assoc]
  congr
  funext accepted
  cases accepted with
  | true => exact Reader.bind_assoc item _ next
  | false => rfl

end Procedural.Reader
