import Procedural.Proofs.Execution.Bare
import Procedural.Proofs.Execution.Reasons
import Procedural.Proofs.Execution.Reuse
import Procedural.Proofs.Typing.Faults

/-!
# Reported places

Whatever pass over a text reports an offset, it is a place between two characters of the
text, and the passes after scanning report offsets of tokens.  Offsets come into being where
tokens are scanned, are copied into the tree, and are only taken from there: all that a run
does on its own account is to call `main` at offset zero, which shows if no call is allowed.
-/

namespace Procedural

open Exec

section Runs

variable {regime : Regime} {budget : Nat} {program : Program} {machine : Machine}

/-- Everything that a run does before it calls `main`. -/
def Program.define (budget : Nat) (program : Program) : Exec Unit :=
  fun machine =>
    (do
      Exec.defineGlobals (Exec.invoke budget machine.room) program.globals
      Exec.defineFunctions program.functions : Exec Unit) machine.reset

theorem Exec.bind_assoc {α β γ : Type} (action : Exec α) (next : α → Exec β) (last : β → Exec γ) :
    (action >>= next) >>= last = action >>= fun value => next value >>= last := by
  funext machine
  cases ended : action machine with
  | mk result after =>
      cases result with
      | ok value =>
          rw [bind_of_ok ended]
          change Exec.bind (Exec.bind action next) last machine = _
          simp only [Exec.bind, ended]
          rfl
      | error stop => rw [bind_of_error ended, bind_of_error (bind_of_error ended)]

theorem Program.execute_eq_define (budget : Nat) (program : Program) (machine : Machine) :
    program.execute budget machine =
      (program.define budget >>= fun _ => callMain (invoke budget machine.room)) machine :=
  (congrFun (Exec.bind_assoc _ _ _) machine.reset).symm

/-- The machine comes to the call of `main` and refuses it, since no further call is allowed. -/
structure Machine.RefusesMain (machine : Machine) (stop : Stop) : Prop where
  found : (machine.environment.findFunction? "main" 0).isSome = true
  full : machine.limit ≤ machine.depth
  refused : stop = .error ⟨.callDepthExceeded machine.limit, some 0⟩

/-- The call of `main` is the only action that has no place in the program.  If it is allowed, the
offset it is made at is not used. -/
theorem Exec.ends_callMain (obeys : machine.Obeys regime) (room : Nat) :
    (callMain (invoke budget (room + 1))).Ends machine (fun _ after => after.Obeys regime)
      fun stop after => after.Obeys regime ∧
        (stop.Obeys regime ∨ after = machine ∧ machine.RefusesMain stop) := by
  apply Ends.bind
  apply Ends.look
  cases found : machine.environment.findFunction? "main" 0 with
  | none => exact ⟨obeys, .inl (.error rfl nofun)⟩
  | some callable =>
      have suits : callable.Suits regime ("main", 0) := obeys.binds.findFunction found
      cases callable with
      | builtin builtin => cases suits
      | user function home =>
          obtain ⟨counted, suits⟩ := suits
          change Ends (if 0 ≠ function.arity then _ else _) _ _ _
          rw [if_neg (not_not_intro counted)]
          apply Ends.bind
          apply Ends.look
          by_cases full : machine.limit ≤ machine.depth
          · rw [decide_eq_true full]
            exact ⟨obeys, .inr ⟨rfl, Option.isSome_of_eq_some found, full, rfl⟩⟩
          · rw [decide_eq_false full]
            have body : (runBody (invoke budget room) budget function []).Regular regime :=
              runBody_regular (invoke_regular budget room) suits []
            exact ((body.inCall home) machine obeys).imp (fun _ _ => id) fun _ _ =>
              .imp_right .inl

theorem Program.ends_execute (admitted : ∀ stmt ∈ program.statements, stmt.Admitted regime.loops)
    (placed : program.Placed regime.places)
    (lines : ∀ line ∈ machine.printed, regime.places line.offset) :
    (program.execute budget).Ends machine (fun _ after => after.Obeys regime)
      fun stop after => after.Obeys regime ∧ (stop.Obeys regime ∨
        program.define budget machine = (.ok (), after) ∧ after.RefusesMain stop) := by
  have invokes : (invoke budget machine.room).Regular regime := invoke_regular budget _
  obtain ⟨globals, functions⟩ := Program.definitions_regular invokes admitted placed
  have obeys : machine.reset.Obeys regime := ⟨Machine.rootEnvironment_binds, lines⟩
  have defines : Ends (program.define budget) machine (fun _ after => after.Obeys regime)
      fun stop after => after.Obeys regime ∧ stop.Obeys regime :=
    (globals.bind fun _ => functions) machine.reset obeys
  unfold Ends at defines ⊢
  rw [program.execute_eq_define]
  cases defined : program.define budget machine with
  | mk result between =>
      rw [defined] at defines
      cases result with
      | error stop =>
          rw [bind_of_error defined]
          exact ⟨defines.1, .inl defines.2⟩
      | ok _ =>
          rw [bind_of_ok defined]
          change Ends (callMain _) between _ _
          apply (ends_callMain defines (machine.limit - machine.depth)).imp fun _ _ => id
          rintro stop after ⟨obeys, regular | ⟨rfl, refuses⟩⟩
          · exact ⟨obeys, .inl regular⟩
          · exact ⟨obeys, .inr ⟨rfl, refuses⟩⟩

end Runs

variable {settings : RunSettings} {text : String}

/-- The problem is reported by checking the text, by translating it to Java, by laying it out or by
running it. -/
inductive Reported (settings : RunSettings) (text : String) (problem : Problem) : Prop where
  | check : Program.accept text = .error problem → Reported settings text problem
  | java : (Program.accept text).map Program.toJava = .error problem →
      Reported settings text problem
  | format : (Program.ofText text).map Program.format = .error problem →
      Reported settings text problem
  | run : (runText settings text).outcome = .error (.problem problem) →
      Reported settings text problem

/-- A run of the text comes to the call of `main`, and no call is allowed at all. -/
structure RunSettings.RefusesMain (settings : RunSettings) (text : String)
    (error : RuntimeError) : Prop where
  none : settings.callLimit = 0
  refused : error = ⟨.callDepthExceeded 0, some 0⟩
  defined : ∃ program after, Program.ofText text = .ok program ∧
    program.define settings.budget (.start 0) = (.ok (), after) ∧
      (after.environment.findFunction? "main" 0).isSome = true

/-- The offset is one at which the problem can be; a lexical fault can be at any. -/
def Problem.LiesIn (settings : RunSettings) (text : String) (offset : Nat) : Problem → Prop
  | .lexical _ => True
  | .reading _ => StartsToken text offset ∨ EndsLastToken text offset
  | .typing _ => StartsToken text offset
  | .runtime error => StartsToken text offset ∨ settings.RefusesMain text error ∧ offset = 0

theorem Program.annotate_eq_error {program : Program} {problem : Problem} :
    program.annotate = .error problem ↔
      ∃ error, program.check.verdict = .error error ∧ problem = .typing error := by
  unfold Program.annotate
  cases verdict : program.check.verdict with
  | error error => simp [verdict, eq_comm]
  | ok _ => simp [verdict]

theorem Program.accept_eq_error {problem : Problem} :
    Program.accept text = .error problem ↔ Program.ofText text = .error problem ∨
      ∃ program, Program.ofText text = .ok program ∧ program.annotate = .error problem := by
  unfold Program.accept
  cases Program.ofText text with
  | error found => simp [bind, Except.bind]
  | ok program => simp [bind, Except.bind]

/-- A run of a text that is not refused is a run of the program that is read from it. -/
theorem runText_cases (settings : RunSettings) (text : String) :
    (∃ problem, Program.accept text = .error problem ∧
      runText settings text = ⟨.error (.problem problem), []⟩) ∨
      ∃ program, Program.ofText text = .ok program ∧
        runText settings text = program.runFresh settings := by
  obtain ⟨analyze, limit, budget⟩ := settings
  cases read : Program.ofText text with
  | error problem =>
      refine .inl ⟨problem, Program.accept_eq_error.mpr (.inl read), ?_⟩
      unfold runText
      rw [read]
      rfl
  | ok program =>
      have unchecked : runText ⟨false, limit, budget⟩ text =
          program.runFresh ⟨false, limit, budget⟩ := by
        unfold runText
        rw [read]
        rfl
      cases analyze with
      | false => exact .inr ⟨program, rfl, unchecked⟩
      | true =>
          cases passed : program.annotate with
          | error problem =>
              refine .inl ⟨problem, Program.accept_eq_error.mpr (.inr ⟨program, read, passed⟩), ?_⟩
              have checked : Program.ofText text >>= Program.annotateIf true = .error problem := by
                rw [read]
                exact passed
              unfold runText
              rw [checked]
          | ok annotated =>
              have accepted := Program.accept_eq_ok.mpr ⟨program, read, passed⟩
              exact .inr ⟨program, rfl, (runText_of_accept accepted limit budget).trans unchecked⟩

/-- Errors that are found before a run lie in the text. -/
theorem Program.lies_of_accept {problem : Problem} {offset : Nat}
    (failed : Program.accept text = .error problem) (known : problem.offset = some offset) :
    (String.Pos.Raw.mk offset).IsValid text ∧ problem.LiesIn settings text offset := by
  rcases Program.accept_eq_error.mp failed with failed | ⟨program, read, failed⟩
  · rcases Program.ofText_eq_error.mp failed with
      ⟨error, scanned, rfl⟩ | ⟨tokens, error, scanned, stumbled, rfl⟩
    · cases known
      exact ⟨boundary_of_tokenize scanned, trivial⟩
    · cases known
      have either := Program.starts_or_ends_of_ofTokens scanned stumbled
      exact ⟨either.elim StartsToken.isValid EndsLastToken.isValid, either⟩
  · obtain ⟨error, verdict, rfl⟩ := Program.annotate_eq_error.mp failed
    have proper := Program.check_proper (Program.statements_complete read)
      (Program.placed_of_ofText read) error verdict
    have starts : StartsToken text offset := proper.placed offset known
    exact ⟨starts.isValid, starts⟩

theorem Program.runFresh_eq {program : Program} {result : Except Stop Value} {after : Machine}
    (ended : program.execute settings.budget (.start settings.callLimit) = (result, after)) :
    program.runFresh settings =
      ⟨(result.map after.store.datum).mapError Failure.ofStop, after.output⟩ := by
  unfold runFresh run
  rw [ended]

/-- A machine without an active call refuses to call `main` only if it allows no call at all. -/
theorem Machine.RefusesMain.allowsNone {after : Machine} {stop : Stop} {limit : Nat}
    (refuses : after.RefusesMain stop) (counts : after.Counts [] limit) :
    limit = 0 ∧ stop = .error ⟨.callDepthExceeded 0, some 0⟩ := by
  have none : after.limit = 0 := by
    have full := refuses.full
    rw [counts.counted] at full
    exact Nat.le_zero.mp full
  have refused := refuses.refused
  rw [none] at refused
  exact ⟨counts.fixed.symm.trans none, refused⟩

/-- A run raises faults and prints at tokens of the text, up to the call of `main`. -/
theorem Program.lies_of_runFresh {program : Program} (read : Program.ofText text = .ok program) :
    (∀ problem offset, (program.runFresh settings).outcome = .error (.problem problem) →
      problem.offset = some offset →
        (String.Pos.Raw.mk offset).IsValid text ∧ problem.LiesIn settings text offset) ∧
      ∀ line ∈ (program.runFresh settings).lines, StartsToken text line.offset := by
  let regime : Regime := ⟨True, StartsToken text⟩
  have placed : program.Placed regime.places := Program.placed_of_ofText read
  have ends : (program.execute settings.budget).Ends (.start settings.callLimit) _ _ :=
    Program.ends_execute (fun _ _ _ => trivial) placed (List.forall_mem_nil _)
  have counts : (program.execute settings.budget (.start settings.callLimit)).2.Counts []
      settings.callLimit := Program.run_counts rfl
  unfold Ends at ends
  cases ended : program.execute settings.budget (.start settings.callLimit) with
  | mk result after =>
      rw [ended] at ends counts
      rw [Program.runFresh_eq ended]
      have printed (obeys : after.Obeys regime) : ∀ line ∈ after.output,
          StartsToken text line.offset :=
        fun line member => obeys.lines line (List.mem_reverse.mp member)
      cases result with
      | ok value => exact ⟨nofun, printed ends⟩
      | error stop =>
          refine ⟨?_, printed ends.1⟩
          intro problem offset outcome known
          cases stop with
          | exhausted => cases outcome
          | error error =>
              cases outcome
              rcases ends.2 with obeys | ⟨defined, refuses⟩
              · have starts : StartsToken text offset := obeys.placed error rfl offset known
                exact ⟨starts.isValid, .inl starts⟩
              · obtain ⟨none, refused⟩ := refuses.allowsNone counts
                cases refused
                cases known
                rw [none] at defined
                refine ⟨String.Pos.Raw.isValid_zero, .inr ⟨⟨none, rfl, ?_⟩, rfl⟩⟩
                exact ⟨program, after, read, defined, refuses.found⟩

theorem Except.eq_error_of_map {ε α β : Type} {result : Except ε α} {change : α → β} {error : ε}
    (failed : result.map change = .error error) : result = .error error := by
  cases result with
  | ok value => cases failed
  | error found =>
      cases failed
      rfl

/-- Every offset that is reported is a place between two characters of the text or at an end of it.
Reading points at a token or behind the last one.  Checking and running point at tokens, and lines
are printed at tokens; only the call of `main` is refused at offset zero, if no call is allowed. -/
theorem reported_places (settings : RunSettings) (text : String) :
    (∀ problem offset, Reported settings text problem → problem.offset = some offset →
      (String.Pos.Raw.mk offset).IsValid text ∧ problem.LiesIn settings text offset) ∧
      ∀ line ∈ (runText settings text).lines, StartsToken text line.offset := by
  constructor
  · intro problem offset reported known
    cases reported with
    | check failed => exact Program.lies_of_accept failed known
    | java failed => exact Program.lies_of_accept (Except.eq_error_of_map failed) known
    | format failed =>
        have refused := Program.accept_eq_error.mpr (.inl (Except.eq_error_of_map failed))
        exact Program.lies_of_accept refused known
    | run failed =>
        rcases runText_cases settings text with ⟨other, refused, report⟩ | ⟨program, read, report⟩
        · rw [report] at failed
          cases failed
          exact Program.lies_of_accept refused known
        · rw [report] at failed
          exact (Program.lies_of_runFresh read).1 problem offset failed known
  · rcases runText_cases settings text with ⟨problem, -, report⟩ | ⟨program, read, report⟩
    · rw [report]
      exact List.forall_mem_nil _
    · rw [report]
      exact (Program.lies_of_runFresh read).2

/-- Behind a character of two bytes the offsets are still those of tokens.  In a text that starts
with a blank no token stands where the call of `main` is refused. -/
theorem reported_places_accent :
    ∃ printing indented, printing = "FUN main ( ) DO print ( \"é\" ) ; print ( 1 / 0 ) ; END" ∧
      (runText ⟨true, 1, 0⟩ printing).outcome =
        .error (.problem (.runtime ⟨.divisionByZero, some 41⟩)) ∧
      (String.Pos.Raw.mk 41).IsValid printing ∧ StartsToken printing 41 ∧
      (runText ⟨true, 1, 0⟩ printing).lines = [⟨16, "é"⟩] ∧ StartsToken printing 16 ∧
      indented = " FUN main ( ) DO END" ∧
      (runText ⟨true, 0, 0⟩ indented).outcome =
        .error (.problem (.runtime ⟨.callDepthExceeded 0, some 0⟩)) ∧
      ¬ StartsToken indented 0 ∧
      RunSettings.RefusesMain ⟨true, 0, 0⟩ indented ⟨.callDepthExceeded 0, some 0⟩ := by
  have fails : ((runText ⟨true, 1, 0⟩
      "FUN main ( ) DO print ( \"é\" ) ; print ( 1 / 0 ) ; END").outcome.map fun _ => ()) =
      .error (.problem (.runtime ⟨.divisionByZero, some 41⟩)) := by
    decide +kernel
  have printed : (runText ⟨true, 1, 0⟩
      "FUN main ( ) DO print ( \"é\" ) ; print ( 1 / 0 ) ; END").lines = [⟨16, "é"⟩] := by
    decide +kernel
  have refuses : ((runText ⟨true, 0, 0⟩ " FUN main ( ) DO END").outcome.map fun _ => ()) =
      .error (.problem (.runtime ⟨.callDepthExceeded 0, some 0⟩)) := by
    decide +kernel
  have scanned : (tokenize " FUN main ( ) DO END").toOption.map
      (·.all fun token => token.offset != 0) = some true := by
    decide +kernel
  have failed := Except.eq_error_of_map fails
  have refused := Except.eq_error_of_map refuses
  have blank : ¬ StartsToken " FUN main ( ) DO END" 0 := by
    rintro ⟨tokens, found, token, member, start⟩
    rw [found] at scanned
    have nonzero := List.all_eq_true.mp (Option.some.inj scanned) token member
    simp [start] at nonzero
  obtain ⟨inPrinting, lines⟩ := reported_places ⟨true, 1, 0⟩
    "FUN main ( ) DO print ( \"é\" ) ; print ( 1 / 0 ) ; END"
  obtain ⟨inIndented, -⟩ := reported_places ⟨true, 0, 0⟩ " FUN main ( ) DO END"
  obtain ⟨valid, starts | exception⟩ := inPrinting _ 41 (.run failed) rfl
  · obtain ⟨-, starts' | exception⟩ := inIndented _ 0 (.run refused) rfl
    · exact absurd starts' blank
    · rw [printed] at lines
      exact ⟨_, _, rfl, failed, valid, starts, printed, lines _ List.mem_cons_self, rfl, refused,
        blank, exception.1⟩
  · cases exception.2

end Procedural
