import Mathlib.Data.List.DropRight
import Procedural.Diagnostic.Position
import Procedural.Proofs.Token.Tokenization

/-!
# Lines and columns of a text

A place in a text is a way to cut it in two.  Its position counts the line breaks before it
and the characters since the last of them, so positions are in the order of the places.  The
line it counts is the one that the lines of the text, cut at line breaks, have there.
-/

namespace Procedural

/-- What stands before a place on its line. -/
def lineBefore (before : List Char) : List Char :=
  before.rtakeWhile (· != '\n')

/-- What stands behind a place on its line. -/
def lineAfter (after : List Char) : List Char :=
  after.takeWhile (· != '\n')

@[simp] theorem lineBefore_nil : lineBefore [] = [] :=
  rfl

theorem lineBefore_concat (before : List Char) (c : Char) :
    lineBefore (before ++ [c]) = if c = '\n' then [] else lineBefore before ++ [c] := by
  rw [lineBefore, List.rtakeWhile_concat]
  by_cases lineBreak : c = '\n' <;> simp [lineBreak, lineBefore]

theorem lineAfter_cons (c : Char) (after : List Char) :
    lineAfter (c :: after) = if c = '\n' then [] else c :: lineAfter after := by
  rw [lineAfter, List.takeWhile_cons]
  by_cases lineBreak : c = '\n' <;> simp [lineBreak, lineAfter]

namespace Position

/-- A position on an earlier line, or farther to the left on the same one. -/
def Precedes (left right : Position) : Prop :=
  left.line < right.line ∨ left.line = right.line ∧ left.column < right.column

theorem Precedes.trans {left middle right : Position} (first : left.Precedes middle)
    (second : middle.Precedes right) : left.Precedes right := by
  unfold Precedes at first second ⊢
  omega

theorem Precedes.irrefl {position : Position} (precedes : position.Precedes position) : False := by
  unfold Precedes at precedes
  omega

theorem precedes_next (position : Position) (c : Char) : position.Precedes (position.next c) := by
  unfold next
  split
  · exact .inl (Nat.lt_succ_self _)
  · exact .inr ⟨rfl, Nat.lt_succ_self _⟩

/-- The position moves on with every character. -/
theorem precedes_foldl {more : List Char} (nonempty : more ≠ []) (position : Position) :
    position.Precedes (more.foldl next position) := by
  induction more generalizing position with
  | nil => exact absurd rfl nonempty
  | cons c more induction =>
      cases more with
      | nil => exact position.precedes_next c
      | cons c' more =>
          exact (position.precedes_next c).trans (induction (List.cons_ne_nil _ _) _)

theorem ofOffsetFrom_append (before after : List Char) (start : Nat) (position : Position) :
    ofOffsetFrom start position (start + byteLength before) (before ++ after) =
      before.foldl next position := by
  induction before generalizing start position with
  | nil => cases after <;> simp [ofOffsetFrom, byteLength]
  | cons c before induction =>
      have size := Char.utf8Size_pos c
      rw [List.cons_append, ofOffsetFrom, byteLength, if_neg (by omega), ← Nat.add_assoc,
        induction, List.foldl_cons]

theorem ofOffsetFrom_of_le {text : List Char} {start offset : Nat} (position : Position)
    (beyond : start + byteLength text ≤ offset) :
    ofOffsetFrom start position offset text = text.foldl next position := by
  induction text generalizing start position with
  | nil => rfl
  | cons c rest induction =>
      have size := Char.utf8Size_pos c
      rw [byteLength] at beyond
      rw [ofOffsetFrom, if_neg (by omega), induction _ (by omega), List.foldl_cons]

/-- The position of a place is found by counting through what stands before it. -/
theorem ofOffset_append (before after : List Char) :
    ofOffset (before ++ after) (byteLength before) = before.foldl next first := by
  have found := ofOffsetFrom_append before after 0 first
  rwa [Nat.zero_add] at found

/-- Behind the end everything has the position of the end. -/
theorem ofOffset_of_le {text : List Char} {offset : Nat} (beyond : byteLength text ≤ offset) :
    ofOffset text offset = ofOffset text (byteLength text) := by
  have atEnd := ofOffset_append text []
  rw [List.append_nil] at atEnd
  rw [atEnd]
  exact ofOffsetFrom_of_le first (by omega)

/-- The line counts the line breaks before a place, and the column the characters since the last. -/
theorem foldl_next (before : List Char) :
    before.foldl next first = ⟨before.count '\n' + 1, (lineBefore before).length + 1⟩ := by
  induction before using List.reverseRecOn with
  | nil => rfl
  | append_singleton before c induction =>
      rw [List.foldl_concat, induction, next, lineBefore_concat, List.count_append]
      by_cases lineBreak : c = '\n' <;> simp [lineBreak]

theorem ofOffset_eq (before after : List Char) :
    ofOffset (before ++ after) (byteLength before) =
      ⟨before.count '\n' + 1, (lineBefore before).length + 1⟩ := by
  rw [ofOffset_append, foldl_next]

end Position

theorem eq_nil_of_byteLength {cs : List Char} (empty : byteLength cs = 0) : cs = [] := by
  cases cs with
  | nil => rfl
  | cons c rest =>
      have size := Char.utf8Size_pos c
      rw [byteLength] at empty
      omega

/-- Of two places in a text the later one has more before it. -/
theorem exists_append_of_byteLength_lt {before after before' after' : List Char}
    (same : before ++ after = before' ++ after') (less : byteLength before < byteLength before') :
    ∃ more, more ≠ [] ∧ before' = before ++ more := by
  rcases List.append_eq_append_iff.mp same with ⟨more, rfl, -⟩ | ⟨more, rfl, -⟩
  · refine ⟨more, ?_, rfl⟩
    rintro rfl
    rw [List.append_nil] at less
    exact lt_irrefl _ less
  · rw [byteLength_append] at less
    omega

/-- A place is determined by the number of bytes before it. -/
theorem eq_of_byteLength_eq {before after before' after' : List Char}
    (same : before ++ after = before' ++ after') (equal : byteLength before = byteLength before') :
    before = before' ∧ after = after' := by
  have isBefore : before = before' := by
    rcases List.append_eq_append_iff.mp same with ⟨more, rfl, -⟩ | ⟨more, rfl, -⟩
    · rw [byteLength_append, Nat.left_eq_add] at equal
      rw [eq_nil_of_byteLength equal, List.append_nil]
    · rw [byteLength_append, Nat.add_eq_left] at equal
      rw [eq_nil_of_byteLength equal, List.append_nil]
  subst isBefore
  exact ⟨rfl, List.append_cancel_left same⟩

/-- Later places have later positions. -/
theorem Position.precedes_of_lt {before after before' after' : List Char}
    (same : before ++ after = before' ++ after') (less : byteLength before < byteLength before') :
    (ofOffset (before ++ after) (byteLength before)).Precedes
      (ofOffset (before ++ after) (byteLength before')) := by
  obtain ⟨more, nonempty, rfl⟩ := exists_append_of_byteLength_lt same less
  rw [ofOffset_append, same, ofOffset_append, List.foldl_append]
  exact precedes_foldl nonempty _

theorem exists_splitLines (text : List Char) :
    ∃ lines, splitLines text = lineAfter text :: lines := by
  induction text with
  | nil => exact ⟨[], rfl⟩
  | cons c rest induction =>
      obtain ⟨lines, split⟩ := induction
      rw [splitLines, lineAfter_cons, split]
      by_cases lineBreak : c = '\n' <;> simp [lineBreak]

/-- The lines from a place on are those of what stands behind it, but the first one starts with what
stands before the place. -/
theorem drop_splitLines (before : List Char) {after : List Char} {lines : List (List Char)}
    (split : splitLines after = lineAfter after :: lines) :
    (splitLines (before ++ after)).drop (before.count '\n') =
      (lineBefore before ++ lineAfter after) :: lines := by
  induction before using List.reverseRecOn generalizing after lines with
  | nil => exact split
  | append_singleton before c induction =>
      rw [List.append_assoc, List.singleton_append, lineBefore_concat, List.count_append]
      by_cases lineBreak : c = '\n'
      · subst lineBreak
        have split' : splitLines ('\n' :: after) = lineAfter ('\n' :: after) :: splitLines after :=
          rfl
        rw [← List.drop_drop, induction split', split]
        rfl
      · have split' : splitLines (c :: after) = lineAfter (c :: after) :: lines := by
          simp [splitLines, lineAfter_cons, lineBreak, split]
        have notCounted : [c].count '\n' = 0 := List.count_eq_zero.mpr (by simp [Ne.symm lineBreak])
        rw [notCounted, Nat.add_zero, induction split', lineAfter_cons, if_neg lineBreak,
          if_neg lineBreak, List.append_assoc, List.singleton_append]

/-- The line that is shown for a place holds what stands before and behind it, up to carriage
returns at the end. -/
theorem lineText?_ofOffset (before after : List Char) :
    lineText? (before ++ after) (Position.ofOffset (before ++ after) (byteLength before)).line =
      some (stripReturns (lineBefore before ++ lineAfter after)) := by
  obtain ⟨lines, split⟩ := exists_splitLines after
  have dropped := drop_splitLines before split
  have found := congrArg List.head? dropped
  rw [List.head?_drop, List.head?_cons] at found
  rw [Position.ofOffset_eq, lineText?, Nat.add_sub_cancel, found, Option.map_some]

/-- Positions are in the order of the places that they belong to. -/
structure Position.OrdersPlaces (text : List Char) : Prop where
  increasing : ∀ {before after before' after' : List Char}, text = before ++ after →
    text = before' ++ after' → byteLength before < byteLength before' →
    (ofOffset text (byteLength before)).Precedes (ofOffset text (byteLength before'))
  distinct : ∀ {before after before' after' : List Char}, text = before ++ after →
    text = before' ++ after' → byteLength before ≠ byteLength before' →
    ofOffset text (byteLength before) ≠ ofOffset text (byteLength before')
  beyond : ∀ {offset : Nat}, byteLength text ≤ offset →
    ofOffset text offset = ofOffset text (byteLength text)

theorem Position.ordersPlaces (text : List Char) : OrdersPlaces text := by
  have increasing {before after before' after' : List Char} (split : text = before ++ after)
      (split' : text = before' ++ after') (less : byteLength before < byteLength before') :
      (ofOffset text (byteLength before)).Precedes (ofOffset text (byteLength before')) := by
    subst split
    exact precedes_of_lt split' less
  refine ⟨increasing, fun split split' apart same => ?_, ofOffset_of_le⟩
  rcases Nat.lt_or_gt_of_ne apart with less | less
  · exact (same ▸ increasing split split' less).irrefl
  · exact (same ▸ increasing split' split less).irrefl

/-- Nothing follows on the line, or only carriage returns that are not shown. -/
def IsUnseen (after : List Char) : Prop :=
  ∀ c ∈ lineAfter after, c = '\r'

theorem stripReturns_append (front back : List Char) :
    stripReturns (front ++ back) =
      if stripReturns back = [] then stripReturns front else front ++ stripReturns back := by
  unfold stripReturns
  rw [List.reverse_append, List.dropWhile_append]
  cases back.reverse.dropWhile (· == '\r') with
  | nil => rfl
  | cons c cs => simp

theorem stripReturns_eq_nil_iff {line : List Char} :
    stripReturns line = [] ↔ ∀ c ∈ line, c = '\r' := by
  simp [stripReturns, List.dropWhile_eq_nil_iff]

theorem stripReturns_of_last {line : List Char} (last : line.getLast? ≠ some '\r') :
    stripReturns line = line := by
  cases line using List.reverseRecOn with
  | nil => rfl
  | append_singleton front c =>
      have visible : c ≠ '\r' := by
        rintro rfl
        exact last List.getLast?_concat
      simp [stripReturns, visible]

theorem stripReturns_isPrefix (line : List Char) : stripReturns line <+: line :=
  List.rdropWhile_prefix _ line

/-- A character that is seen stands in the shown line where it stands in the text. -/
theorem getElem?_of_seen {before after : List Char} (seen : ¬ IsUnseen after) :
    (stripReturns (lineBefore before ++ lineAfter after))[(lineBefore before).length]? =
      after.head? := by
  have nonempty : stripReturns (lineAfter after) ≠ [] := mt stripReturns_eq_nil_iff.mp seen
  have isPrefix : stripReturns (lineAfter after) <+: after := by
    apply (stripReturns_isPrefix _).trans
    exact List.takeWhile_prefix _
  obtain ⟨rest, split⟩ := isPrefix
  obtain ⟨c, cs, shown⟩ := List.exists_cons_of_ne_nil nonempty
  rw [stripReturns_append, if_neg nonempty, List.getElem?_append_right le_rfl, Nat.sub_self, shown]
  rw [shown] at split
  rw [← split]
  rfl

theorem lineBefore_last {before : List Char} (last : before.getLast? ≠ some '\r') :
    (lineBefore before).getLast? ≠ some '\r' := by
  cases before using List.reverseRecOn with
  | nil => exact last
  | append_singleton before c =>
      rw [lineBefore_concat]
      split
      · exact nofun
      · rwa [List.getLast?_concat] at last ⊢

/-- Where nothing is seen, the shown line ends with what stands before the place. -/
theorem stripReturns_of_unseen {before after : List Char} (unseen : IsUnseen after)
    (last : before.getLast? ≠ some '\r') :
    stripReturns (lineBefore before ++ lineAfter after) = lineBefore before := by
  rw [stripReturns_append, if_pos (stripReturns_eq_nil_iff.mpr unseen),
    stripReturns_of_last (lineBefore_last last)]

theorem not_isUnseen_of_not_isBlank {c : Char} {rest : List Char}
    (visible : Scan.isBlank c = false) : ¬ IsUnseen (c :: rest) := by
  intro unseen
  have notBreak : c ≠ '\n' := by
    rintro rfl
    cases visible
  rw [IsUnseen, lineAfter_cons, if_neg notBreak] at unseen
  obtain rfl := unseen c List.mem_cons_self
  cases visible

end Procedural
