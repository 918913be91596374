import Procedural.Diagnostic.Report
import Procedural.Proofs.Diagnostic.Position
import Procedural.Proofs.Execution.Places

/-!
# Carets

A report without colour ends in a row with a line of the text and a row with a caret.  Both
rows begin with as many characters that do not come from the text, so the caret stands below
the character that the problem is at.  Where the passes report an offset at which nothing of
the line is seen, no carriage return stands before it, so the caret follows the line.
-/

namespace Procedural

open Scan

namespace Problem

/-- What the row of a line begins with. -/
def gutter (number : Nat) : String :=
  toString number ++ " | "

/-- What stands in the row of the caret in front of the caret. -/
def margin (number column : Nat) : String :=
  spaces (toString number).length ++ " | " ++ spaces column

theorem length_spaces (count : Nat) : (spaces count).length = count := by
  simp [spaces]

theorem spaces_succ (count : Nat) : spaces (count + 1) = spaces count ++ " " := by
  rw [spaces, spaces, List.replicate_succ', String.ofList_append]

/-- The caret is moved to the right as far as the line is, and by so many characters more. -/
theorem length_margin (number column : Nat) :
    (margin number column).length = (gutter number).length + column := by
  simp only [margin, gutter, String.length_append, length_spaces]

/-- There is one caret in its row. -/
theorem caret_iff (number column place : Nat) :
    (margin number column ++ "^").toList[place]? = some '^' ↔
      place = (margin number column).length := by
  have none : '^' ∉ (margin number column).toList := by
    simp [margin, spaces, String.toList_append]
  rw [String.toList_append, List.getElem?_append, String.length_toList]
  split
  next inside =>
    constructor
    · exact fun found => absurd (List.mem_of_getElem? found) none
    · exact fun same => absurd same inside.ne
  next outside =>
    change ['^'][place - (margin number column).length]? = _ ↔ _
    rw [List.getElem?_singleton]
    split
    next here =>
      constructor
      · intro _
        omega
      · exact fun _ => rfl
    next beyond =>
      constructor
      · exact nofun
      · intro same
        omega

/-- The last rows of a report show the line of the place and a caret. -/
theorem report_rows (problem : Problem) {text : String} (fileName : String)
    {before after : List Char} (known : problem.offset = some (byteLength before))
    (split : text.toList = before ++ after) :
    ∃ head, problem.report text fileName false = head ++ "\n" ++
      (gutter (before.count '\n' + 1) ++
        String.ofList (stripReturns (lineBefore before ++ lineAfter after))) ++ "\n" ++
      (margin (before.count '\n' + 1) (lineBefore before).length ++ "^") ++ "\n" := by
  have shown := lineText?_ofOffset before after
  have position := Position.ofOffset_eq before after
  rw [position, ← split] at shown
  rw [← split] at position
  simp only [report, known, excerpt, position, shown, Emphasis.paint, Bool.false_eq_true, if_false,
    Nat.add_sub_cancel, spaces_succ]
  have bar : " | " = " " ++ "|" ++ " " := rfl
  generalize before.count '\n' + 1 = line
  generalize (lineBefore before).length = column
  refine ⟨problem.headline false ++ (spaces (toString line).length ++
    s!"--> {fileName}:{line}:{column + 1}\n") ++ (spaces (toString line).length ++ " ") ++ "|", ?_⟩
  simp only [gutter, margin, bar, String.append_assoc]
  rfl

end Problem

variable {settings : RunSettings} {text : String} {problem : Problem} {offset : Nat}

/-- At the offset no carriage return stands right before, or something that is no white space
behind. -/
def AvoidsReturnsAt (text : String) (offset : Nat) : Prop :=
  ∃ before after, text.toList = before ++ after ∧ offset = byteLength before ∧
    AvoidsReturns before after

theorem avoidsReturnsAt_zero (text : String) : AvoidsReturnsAt text 0 :=
  ⟨[], text.toList, rfl, rfl, .inl nofun⟩

theorem StartsToken.avoidsReturns (starts : StartsToken text offset) :
    AvoidsReturnsAt text offset := by
  obtain ⟨tokens, scanned, token, member, rfl⟩ := starts
  have tokenization := tokenize_eq_ok.mp scanned
  obtain ⟨before, after, split, same⟩ := tokenization.slices token member
  have isLexeme := tokenization.lexemes token member
  obtain ⟨c, cs, literal⟩ := List.exists_cons_of_ne_nil isLexeme.nonempty
  rw [Nat.zero_add] at same
  refine ⟨before, token.literal.toList ++ after, split, same, .inr ⟨c, cs ++ after, ?_, ?_⟩⟩
  · rw [literal, List.cons_append]
  · apply isLexeme.notBlank
    rw [literal, List.head?_cons]

theorem EndsLastToken.avoidsReturns (ends : EndsLastToken text offset) :
    AvoidsReturnsAt text offset := by
  obtain ⟨tokens, scanned, token, last, rfl⟩ := ends
  have member := List.mem_of_getLast? last
  have tokenization := tokenize_eq_ok.mp scanned
  obtain ⟨before, after, split, same⟩ := tokenization.slices token member
  have isLexeme := tokenization.lexemes token member
  refine ⟨before ++ token.literal.toList, after, ?_, ?_, .inl ?_⟩
  · rw [split, List.append_assoc]
  · have size := utf8ByteSize_ofList token.literal.toList
    rw [String.ofList_toList] at size
    rw [Token.stop, same, byteLength_append, size, Nat.zero_add]
  · exact isLexeme.onOneLine.last_append isLexeme.nonempty before

theorem avoidsReturns_of_tokenize {error : LexicalError} (failed : tokenize text = .error error) :
    AvoidsReturnsAt text error.offset := by
  obtain ⟨before, after, split, same, avoids⟩ := Cursor.boundary_of_tokensWithin failed
  exact ⟨before, after, split, same.trans (Nat.zero_add _), avoids⟩

theorem Problem.LiesIn.avoidsReturns (lies : problem.LiesIn settings text offset)
    (scanned : ∀ error, problem ≠ .lexical error) : AvoidsReturnsAt text offset := by
  cases problem with
  | lexical error => exact absurd rfl (scanned error)
  | reading error => exact lies.elim StartsToken.avoidsReturns EndsLastToken.avoidsReturns
  | typing error => exact StartsToken.avoidsReturns lies
  | runtime error =>
      rcases lies with starts | ⟨-, rfl⟩
      · exact starts.avoidsReturns
      · exact avoidsReturnsAt_zero text

theorem Program.avoidsReturns_of_accept (failed : Program.accept text = .error problem)
    (known : problem.offset = some offset) : AvoidsReturnsAt text offset := by
  cases problem with
  | lexical error =>
      cases known
      rcases Program.accept_eq_error.mp failed with failed | ⟨program, -, failed⟩
      · rcases Program.ofText_eq_error.mp failed with ⟨error, failed, same⟩ | ⟨_, _, _, _, same⟩
        · cases same
          exact avoidsReturns_of_tokenize failed
        · cases same
      · obtain ⟨_, _, same⟩ := Program.annotate_eq_error.mp failed
        cases same
  | _ =>
      have lies : _ ∧ Problem.LiesIn ⟨true, 0, 0⟩ text offset _ :=
        Program.lies_of_accept failed known
      exact lies.2.avoidsReturns nofun

theorem Program.runtime_of_runFresh {program : Program}
    (failed : (program.runFresh settings).outcome = .error (.problem problem)) :
    ∃ error, problem = .runtime error := by
  cases ended : program.execute settings.budget (.start settings.callLimit) with
  | mk result after =>
      rw [Program.runFresh_eq ended] at failed
      cases result with
      | ok value => cases failed
      | error stop =>
          cases stop with
          | exhausted => cases failed
          | error error =>
              cases failed
              exact ⟨error, rfl⟩

theorem Reported.avoidsReturns (reported : Reported settings text problem)
    (known : problem.offset = some offset) : AvoidsReturnsAt text offset := by
  cases reported with
  | check failed => exact Program.avoidsReturns_of_accept failed known
  | java failed => exact Program.avoidsReturns_of_accept (Except.eq_error_of_map failed) known
  | format failed =>
      have refused := Program.accept_eq_error.mpr (.inl (Except.eq_error_of_map failed))
      exact Program.avoidsReturns_of_accept refused known
  | run failed =>
      rcases runText_cases settings text with ⟨other, refused, report⟩ | ⟨program, read, report⟩
      · rw [report] at failed
        cases failed
        exact Program.avoidsReturns_of_accept refused known
      · rw [report] at failed
        obtain ⟨error, rfl⟩ := Program.runtime_of_runFresh failed
        have lies := ((Program.lies_of_runFresh read).1 _ offset failed known).2
        exact lies.avoidsReturns nofun

/-- Reported offsets at which nothing of the line is seen are where its text ends. -/
theorem Reported.ends_line {before after : List Char} (reported : Reported settings text problem)
    (known : problem.offset = some (byteLength before)) (split : text.toList = before ++ after)
    (unseen : IsUnseen after) :
    stripReturns (lineBefore before ++ lineAfter after) = lineBefore before := by
  obtain ⟨before', after', split', same, avoids⟩ := reported.avoidsReturns known
  obtain ⟨rfl, rfl⟩ := eq_of_byteLength_eq (split.symm.trans split') same
  rcases avoids with last | ⟨c, rest, rfl, visible⟩
  · exact stripReturns_of_unseen unseen last
  · exact absurd unseen (not_isUnseen_of_not_isBlank visible)

/-- Positions are in the order of places.  A report shows the line of its place, and the caret below
the character there, if that is seen.  If it is not, the caret of a problem that is reported for
the text stands right behind the line. -/
theorem reports_point (settings : RunSettings) (text : String) :
    Position.OrdersPlaces text.toList ∧
      ∀ (problem : Problem) (fileName : String) (before after : List Char),
        text.toList = before ++ after → problem.offset = some (byteLength before) →
        ∃ (head row caret : String) (index : Nat),
          problem.report text fileName false = head ++ "\n" ++ row ++ "\n" ++ caret ++ "\n" ∧
          row = Problem.gutter (before.count '\n' + 1) ++
            String.ofList (stripReturns (lineBefore before ++ lineAfter after)) ∧
          caret = Problem.margin (before.count '\n' + 1) (lineBefore before).length ++ "^" ∧
          (∀ place, caret.toList[place]? = some '^' ↔ place = index) ∧
          (∀ c rest, after = c :: rest → ¬ IsUnseen after → row.toList[index]? = some c) ∧
          (Reported settings text problem → IsUnseen after → index = row.length) := by
  refine ⟨Position.ordersPlaces _, fun problem fileName before after split known => ?_⟩
  obtain ⟨head, rows⟩ := problem.report_rows fileName known split
  refine ⟨head, _, _, _, rows, rfl, rfl, Problem.caret_iff _ _, ?_, ?_⟩
  · rintro c rest rfl seen
    rw [Problem.length_margin, String.toList_append, String.toList_ofList, ← String.length_toList,
      List.getElem?_append_right (Nat.le_add_right _ _), Nat.add_sub_cancel_left,
      getElem?_of_seen seen, List.head?_cons]
  · intro reported unseen
    rw [Problem.length_margin, reported.ends_line known split unseen, String.length_append,
      String.length_ofList]

/-- A string is not closed where its line ends.  The carriage return that ends the line is not
shown, and the caret stands behind the two characters that are. -/
theorem reports_point_returns :
    ∃ text problem row, text = "\"é\r\n" ∧ Program.accept text = .error problem ∧
      problem = .lexical ⟨.lineBreak, 3⟩ ∧ row = Problem.gutter 1 ++ String.ofList ['"', 'é'] ∧
      ∃ head caret,
        problem.report text "a.plc" false = head ++ "\n" ++ row ++ "\n" ++ caret ++ "\n" ∧
        ∀ place, caret.toList[place]? = some '^' ↔ place = row.length := by
  have failed : tokenize "\"é\r\n" = .error ⟨.lineBreak, 3⟩ := by
    decide +kernel
  have refused : Program.accept "\"é\r\n" = .error (.lexical ⟨.lineBreak, 3⟩) :=
    Program.accept_eq_error.mpr (.inl (Program.ofText_eq_error.mpr (.inl ⟨_, failed, rfl⟩)))
  have shown : stripReturns (lineBefore ['"', 'é'] ++ lineAfter ['\r', '\n']) = ['"', 'é'] := by
    decide +kernel
  have unseen : IsUnseen ['\r', '\n'] := by
    simp [IsUnseen, lineAfter]
  obtain ⟨-, points⟩ := reports_point ⟨true, 0, 0⟩ "\"é\r\n"
  obtain ⟨head, row, caret, index, rows, isRow, -, isIndex, -, follows⟩ :=
    points (.lexical ⟨.lineBreak, 3⟩) "a.plc" ['"', 'é'] ['\r', '\n'] (by decide +kernel) rfl
  obtain rfl := follows (.check refused) unseen
  rw [shown] at isRow
  exact ⟨_, _, row, rfl, refused, rfl, isRow, head, caret, rows, isIndex⟩

end Procedural
