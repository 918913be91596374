import Procedural.Proofs.Execution.Reasons
import Procedural.Proofs.Reader.Literals
import Procedural.Proofs.Typing.Faults
import Procedural.Proofs.Typing.FullAnnotation

/-!
# Faults that never occur

Some faults guard one pass against the results of another: literals without a value,
declarations without type and value, misplaced default cases, functions with too few or too
many parameter types, and calls with a wrong number of arguments.  The passes agree, so
none of these is ever met in a program that comes from a text.  In particular a switch always
comes to the body of one of its cases.
-/

namespace Procedural

/-- Evaluates the values of cases in order, up to one that equals the selector; a case without a
value ends the search, too. -/
def Case.choose (invoke : Invoker) (selector : Value) : List Case → Exec (Option Case)
  | [] => pure none
  | .mk none body :: _ => pure (some (.mk none body))
  | .mk (some value) body :: rest => do
      let candidate ← value.evaluate invoke
      if ← Exec.look fun machine => machine.store.same candidate selector then
        pure (some (.mk (some value) body))
      else Case.choose invoke selector rest

/-- Evaluates what it takes to choose a case of a switch. -/
def Stmt.chooseCase (invoke : Invoker) (condition : Expr) (cases : List Case) :
    Exec (Option Case) := do
  let selector ← condition.evaluate invoke
  Case.choose invoke selector cases

/-- If the evaluation that chooses a case fails, so does the action.  Otherwise it chooses one of
the cases, and then the action executes the body of that case. -/
def Exec.FollowsChoice (invoke : Invoker) (budget : Nat) (cases : List Case)
    (choice : Exec (Option Case)) (action : Exec Flow) (machine : Machine) : Prop :=
  match choice machine with
  | (.error stop, after) => action machine = (.error stop, after)
  | (.ok chosen, after) => ∃ case ∈ cases, chosen = some case ∧
      action machine = Exec.inBlock (Stmt.executeAll invoke budget case.body) after

section Choices

open Exec

variable {invoke : Invoker} {budget : Nat} {machine : Machine}

/-- After an evaluation both go on from the same machine. -/
theorem Exec.FollowsChoice.after {α : Type} {cases : List Case} {first : Exec α}
    {choice : α → Exec (Option Case)} {action : α → Exec Flow}
    (follows : ∀ value after, first machine = (.ok value, after) →
      FollowsChoice invoke budget cases (choice value) (action value) after) :
    FollowsChoice invoke budget cases (first >>= choice) (first >>= action) machine := by
  unfold FollowsChoice
  cases ended : first machine with
  | mk result after =>
      cases result with
      | error stop =>
          rw [bind_of_error ended]
          exact bind_of_error ended
      | ok value =>
          rw [bind_of_ok ended, bind_of_ok ended]
          exact follows value after ended

theorem Exec.FollowsChoice.later {case : Case} {cases : List Case} {choice : Exec (Option Case)}
    {action : Exec Flow} (follows : FollowsChoice invoke budget cases choice action machine) :
    FollowsChoice invoke budget (case :: cases) choice action machine := by
  unfold FollowsChoice at follows ⊢
  split
  next failed =>
    rw [failed] at follows
    exact follows
  next chose =>
    rw [chose] at follows
    obtain ⟨chosen, member, same, executes⟩ := follows
    exact ⟨chosen, List.mem_cons_of_mem case member, same, executes⟩

theorem Exec.FollowsChoice.here {case : Case} {rest : List Case} {action : Exec Flow}
    (executes : action machine = inBlock (Stmt.executeAll invoke budget case.body) machine) :
    FollowsChoice invoke budget (case :: rest) (pure (some case)) action machine :=
  ⟨case, List.mem_cons_self, rfl, executes⟩

theorem Case.executeFirst_follows (selector : Value) : ∀ (cases : List Case) (machine : Machine),
    Case.endInDefault cases = true →
    FollowsChoice invoke budget cases (Case.choose invoke selector cases)
      (Case.executeFirst invoke budget selector cases) machine
  | [], _, ends => by cases ends
  | .mk none body :: rest, machine, _ => .here rfl
  | .mk (some value) body :: rest, machine, ends => by
      apply FollowsChoice.after
      intro candidate between _
      apply FollowsChoice.after
      intro equal after _
      cases equal with
      | true => exact .here rfl
      | false =>
          cases rest with
          | nil => cases ends
          | cons next rest =>
              exact (Case.executeFirst_follows selector (next :: rest) after ends).later

/-- A switch whose cases end in a default never falls through all of them. -/
theorem Stmt.execute_switch_follows (condition : Expr) {cases : List Case}
    (ends : Case.endInDefault cases = true) (machine : Machine) :
    FollowsChoice invoke budget cases (Stmt.chooseCase invoke condition cases)
      ((Stmt.switch condition cases).execute invoke budget) machine := by
  rw [Stmt.execute]
  apply FollowsChoice.after
  intro selector after _
  exact Case.executeFirst_follows selector cases after ends

end Choices

/-- What later passes can rely on in a program. -/
structure Program.Guarded (program : Program) : Prop where
  parameters : ∀ function ∈ program.functions,
    function.parameterTypes.length = function.parameters.length
  arguments : ∀ budget machine error,
    (program.execute budget machine).1 = .error (.error error) → error.fault.isMiscount = false
  switches : ∀ condition cases, .switch condition cases ∈ program.statements →
    ∀ invoke budget machine, Exec.FollowsChoice invoke budget cases
      (Stmt.chooseCase invoke condition cases)
      ((Stmt.switch condition cases).execute invoke budget) machine

theorem Program.guarded {program : Program}
    (balanced : ∀ function ∈ program.functions, function.Balanced)
    (complete : ∀ stmt ∈ program.statements, stmt.isComplete = true) : program.Guarded where
  parameters := balanced
  arguments _ _ _ failed := Program.stops_regularly (fun _ _ _ => trivial) failed
  switches condition _ member _ _ machine :=
    Stmt.execute_switch_follows condition (complete _ member) machine

/-- No text is refused for a literal without a value, and its numbers and characters denote what
they spell.  Checking what is read finds no fault about the shapes of statements.  As it was read
and after checking, functions have as many parameter types as parameters, no call has a wrong
number of arguments, and a switch executes the body of exactly one case unless an evaluation fails
before. -/
theorem Program.defenses_hold (text : String) :
    (∀ token, Program.ofText text ≠ .error (.reading (.invalidLiteral token))) ∧
      (∀ tokens, tokenize text = .ok tokens → ∀ token ∈ tokens,
        token.kind ∈ [TokenKind.integer, .decimal, .character] →
          ∃ value, Scalar.SpelledBy value token.kind token.literal.toList ∧
            token.scalar? = some value) ∧
      ∀ given, Program.ofText text = .ok given →
        (∀ error, given.check.verdict = .error error → error.fault.isAboutShape = false) ∧
          ∀ program, program = given ∨ given.annotate = .ok program → program.Guarded := by
  refine ⟨Program.ofText_ne_invalidLiteral text, ?_, ?_⟩
  · intro tokens scanned token member kind
    exact (isLexical_of_tokenize scanned token member).spells kind
  · intro given read
    have complete := Program.statements_complete read
    obtain ⟨tokens, derived, -⟩ := Program.isProgram_of_ofText read
    have balanced : ∀ function ∈ given.functions, function.Balanced := by
      intro function member
      obtain ⟨_, isFunction⟩ := derived.forall_function function member
      exact isFunction.balanced
    refine ⟨Program.check_ordinary complete, ?_⟩
    rintro program (rfl | accepted)
    · exact Program.guarded balanced complete
    · obtain ⟨-, rfl⟩ := Program.annotate_eq_ok.mp accepted
      exact Program.guarded (Program.balanced_check balanced)
        (Program.statements_complete_check complete)

def Stmt.isSwitch : Stmt → Bool
  | .switch _ _ => true
  | _ => false

/-- The default case of a switch over characters is executed, since none of the others applies. -/
theorem Program.defenses_hold_switch :
    ∃ given condition cases,
      Program.ofText ("FUN main ( ) : Decimal DO SWITCH 'b' CASE 'a' : RETURN 1.50 ; " ++
        "DEFAULT RETURN -2.50 ; END RETURN 0.0 ; END") = .ok given ∧
      (given.execute 0 (.start 1)).1 = .ok (.scalar (.decimal ⟨-250, 2⟩)) ∧
      .switch condition cases ∈ given.statements ∧
      Exec.FollowsChoice (Exec.invoke 0 1) 0 cases
        (Stmt.chooseCase (Exec.invoke 0 1) condition cases)
        ((Stmt.switch condition cases).execute (Exec.invoke 0 1) 0) (.start 1) := by
  have happens : ((Program.ofText
      ("FUN main ( ) : Decimal DO SWITCH 'b' CASE 'a' : RETURN 1.50 ; " ++
      "DEFAULT RETURN -2.50 ; END RETURN 0.0 ; END")).toOption.map fun given =>
        ((given.execute 0 (.start 1)).1, given.statements.any Stmt.isSwitch)) =
      some (.ok (.scalar (.decimal ⟨-250, 2⟩)), true) := by
    decide +kernel
  obtain ⟨given, read, found⟩ := Program.exists_of_ofText happens
  simp only [Prod.mk.injEq, List.any_eq_true] at found
  obtain ⟨result, stmt, member, isSwitch⟩ := found
  obtain ⟨-, -, accepted⟩ := Program.defenses_hold
    ("FUN main ( ) : Decimal DO SWITCH 'b' CASE 'a' : RETURN 1.50 ; " ++
      "DEFAULT RETURN -2.50 ; END RETURN 0.0 ; END")
  have guarded := (accepted given read).2 given (.inl rfl)
  cases stmt with
  | switch condition cases =>
      exact ⟨given, condition, cases, read, result, member,
        guarded.switches condition cases member _ _ _⟩
  | _ => cases isSwitch

end Procedural
