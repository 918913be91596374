import Procedural.Proofs.Reader.Exactness
import Procedural.Tool

/-!
# Programs from texts

A program that is read from a text is derived from the tokens of the text, and so are
its global variables and functions one by one.
-/

namespace Procedural

open Grammar

theorem Program.ofText_eq_ok {text : String} {program : Program} :
    Program.ofText text = .ok program ↔
      ∃ tokens, tokenize text = .ok tokens ∧ Program.ofTokens tokens = .ok program := by
  unfold Program.ofText
  cases tokenize text with
  | error error => simp
  | ok tokens =>
      cases outcome : Program.ofTokens tokens with
      | error error => simp [outcome]
      | ok found => simp [outcome]

theorem Program.annotate_eq_ok {program annotated : Program} :
    program.annotate = .ok annotated ↔
      program.check.verdict = .ok () ∧ program.check.tree = annotated := by
  unfold Program.annotate
  cases verdict : program.check.verdict with
  | error error => simp [verdict]
  | ok _ => simp [verdict]

/-- If something was computed from the program of a text, then the text was read. -/
theorem Program.exists_of_ofText {α : Type} {text : String} {view : Program → α} {result : α}
    (computed : (Program.ofText text).toOption.map view = some result) :
    ∃ program, Program.ofText text = .ok program ∧ view program = result := by
  cases read : Program.ofText text with
  | error problem =>
      rw [read] at computed
      cases computed
  | ok program =>
      rw [read] at computed
      exact ⟨program, rfl, Option.some.inj computed⟩

/-- If something was computed from the annotated program of a text, then the text was accepted. -/
theorem Program.exists_of_annotate {α : Type} {text : String} {view : Program → α} {result : α}
    (computed : ((Program.ofText text).toOption.bind fun given =>
      given.annotate.toOption.map view) = some result) :
    ∃ given annotated, Program.ofText text = .ok given ∧ given.annotate = .ok annotated ∧
      view annotated = result := by
  cases read : Program.ofText text with
  | error problem =>
      rw [read] at computed
      cases computed
  | ok given =>
      rw [read] at computed
      cases accepted : given.annotate with
      | error problem =>
          simp only [Except.toOption, Option.bind_some, accepted] at computed
          cases computed
      | ok annotated =>
          simp only [Except.toOption, Option.bind_some, accepted] at computed
          exact ⟨given, annotated, rfl, accepted, Option.some.inj computed⟩

theorem Program.accept_eq_ok {text : String} {annotated : Program} :
    Program.accept text = .ok annotated ↔
      ∃ program, Program.ofText text = .ok program ∧ program.annotate = .ok annotated := by
  unfold Program.accept
  cases Program.ofText text with
  | error problem =>
      constructor
      · intro accepted
        cases accepted
      · rintro ⟨program, read, -⟩
        cases read
  | ok program =>
      constructor
      · exact fun passed => ⟨program, rfl, passed⟩
      · rintro ⟨_, read, passed⟩
        cases read
        exact passed

/-- What is read from a text is derived from tokens in the languages of their classes. -/
theorem Program.isProgram_of_ofText {text : String} {program : Program}
    (read : Program.ofText text = .ok program) :
    ∃ tokens, IsProgram tokens program ∧ ∀ token ∈ tokens, token.IsLexical := by
  obtain ⟨tokens, scanned, readTokens⟩ := Program.ofText_eq_ok.mp read
  exact ⟨tokens, Program.ofTokens_eq_ok.mp readTokens, isLexical_of_tokenize scanned⟩

theorem Grammar.IsProgram.forall_global {tokens : List Token} {program : Program}
    (derived : IsProgram tokens program) :
    ∀ item ∈ program.globals, ∃ tokens, IsGlobal tokens item := by
  induction derived with
  | nil => simp
  | global first _ induction => exact List.forall_mem_cons.mpr ⟨⟨_, first⟩, induction⟩
  | function _ _ induction => exact induction

theorem Grammar.IsProgram.forall_function {tokens : List Token} {program : Program}
    (derived : IsProgram tokens program) :
    ∀ item ∈ program.functions, ∃ tokens, IsFunction tokens item := by
  induction derived with
  | nil => simp
  | global _ _ induction => exact induction
  | function first _ induction => exact List.forall_mem_cons.mpr ⟨⟨_, first⟩, induction⟩

end Procedural
