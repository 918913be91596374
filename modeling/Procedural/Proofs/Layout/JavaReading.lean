import Mathlib.Data.List.Induction
import Procedural.Proofs.Layout.JavaLexing

/-!
# How Java reads expressions

A term says how the operands of a Java expression are grouped.  Java reads a text as a term if
the term is written with the lexemes of the text and every operator stands over operands that
bind more tightly, or equally tightly on its left.  A `+` or `-` is a sign of the operand behind
it unless an operand ends before it.  A text has at most one reading, and it has one if its
lexemes are those of any term.
-/

namespace Procedural

namespace Java

/-- The position of an operator in Java; a greater one binds more tightly.  Between two
operands the sign of powers is an exclusive or. -/
def rank : BinaryOp → Nat
  | .or => 0
  | .and => 1
  | .power => 2
  | .equal | .unequal => 3
  | .less | .greater => 4
  | .add | .subtract => 5
  | .multiply | .divide => 6

/-- What may stand before an operand. -/
inductive Sign where
  | plus
  | minus
  deriving DecidableEq, Repr

/-- The operator that is written like a sign. -/
def Sign.op : Sign → BinaryOp
  | plus => .add
  | minus => .subtract

def signed (signs : List Sign) : List Lexeme :=
  signs.map fun sign => .operator sign.op

/-- The name before a bracket, if there is one. -/
def headed (head : Option String) : List Lexeme :=
  (head.map fun name => Lexeme.leaf (.name name)).toList

/-- Operands in brackets are a group, the arguments of a call or the elements of an array,
as the brackets and the name before them say. -/
inductive Term where
  | leaf (signs : List Sign) (word : Leaf)
  | brackets (signs : List Sign) (head : Option String) (kind : Bracket) (items : List Term)
  | operator (op : BinaryOp) (left right : Term)

namespace Term

mutual

/-- The lexemes that a term is written with. -/
def lexemes : Term → List Lexeme
  | leaf signs word => signed signs ++ [.leaf word]
  | brackets signs head kind items =>
      signed signs ++ headed head ++ .opening kind :: (joined items ++ [.closing kind])
  | operator op left right => left.lexemes ++ .operator op :: right.lexemes

/-- The lexemes of terms with commas between them. -/
def joined : List Term → List Lexeme
  | [] => []
  | first :: rest => first.lexemes ++ joinedFurther rest

/-- The lexemes of terms with a comma before each. -/
def joinedFurther : List Term → List Lexeme
  | [] => []
  | first :: rest => .comma :: first.lexemes ++ joinedFurther rest

end

/-- The operators of a term outside brackets have at least a given rank, and every operator
binds the operands that it stands over as Java groups them. -/
inductive Layered : Nat → Term → Prop where
  | leaf {bound : Nat} {signs : List Sign} {word : Leaf} : Layered bound (.leaf signs word)
  | brackets {bound : Nat} {signs : List Sign} {head : Option String} {kind : Bracket}
      {items : List Term} :
      (∀ item ∈ items, Layered 0 item) → Layered bound (.brackets signs head kind items)
  | operator {bound : Nat} {op : BinaryOp} {left right : Term} :
      bound ≤ rank op → Layered (rank op) left → Layered (rank op + 1) right →
      Layered bound (.operator op left right)

/-- The outermost operator of a term. -/
def operator? : Term → Option BinaryOp
  | operator op _ _ => some op
  | _ => none

theorem Layered.rank_le {bound : Nat} {term : Term} (layered : term.Layered bound)
    {op : BinaryOp} (outermost : term.operator? = some op) : bound ≤ rank op := by
  cases layered with
  | operator above _ _ =>
      cases outermost
      exact above
  | _ => cases outermost

theorem Layered.rebound {bound bound' : Nat} {term : Term} (layered : term.Layered bound)
    (above : ∀ op, term.operator? = some op → bound' ≤ rank op) : term.Layered bound' := by
  cases layered with
  | leaf => exact .leaf
  | brackets items => exact .brackets items
  | operator _ left right => exact .operator (above _ rfl) left right

end Term

/-- Java groups the operands of a text as a term does. -/
structure Reads (text : String) (term : Term) : Prop where
  written : Lexes text.toList term.lexemes
  layered : term.Layered 0

/-- An operand may end with the lexeme. -/
def Lexeme.IsEnd : Lexeme → Prop
  | leaf _ | closing _ => True
  | operator _ | opening _ | comma | other => False

/-- The lexemes end with an operand, so an operator follows. -/
def EndsOperand (before : List Lexeme) : Prop :=
  ∃ front last, before = front ++ [last] ∧ last.IsEnd

theorem endsOperand_concat {front : List Lexeme} {last : Lexeme} :
    EndsOperand (front ++ [last]) ↔ last.IsEnd := by
  constructor
  · rintro ⟨front', last', same, isEnd⟩
    obtain ⟨-, equal⟩ := List.append_inj' same rfl
    cases equal
    exact isEnd
  · intro isEnd
    exact ⟨front, last, rfl, isEnd⟩

/-- Behind the lexemes before it, a term whose operators have at least a given rank may begin
after the lexeme; an operator binds on its left what ends before it. -/
def Lexeme.Precedes (bound : Nat) (front : List Lexeme) : Lexeme → Prop
  | operator op => rank op < bound ∧ EndsOperand front
  | opening _ | comma => True
  | leaf _ | closing _ | other => False

/-- A term whose operators have at least a given rank may begin behind the lexemes. -/
def Opens (bound : Nat) (before : List Lexeme) : Prop :=
  ∀ front last, before = front ++ [last] → last.Precedes bound front

theorem opens_nil {bound : Nat} : Opens bound [] := by
  simp [Opens]

theorem opens_concat {bound : Nat} {front : List Lexeme} {last : Lexeme} :
    Opens bound (front ++ [last]) ↔ last.Precedes bound front := by
  constructor
  · intro opens
    exact opens front last rfl
  · intro precedes front' last' same
    obtain ⟨equal, equal'⟩ := List.append_inj' same rfl
    cases equal
    cases equal'
    exact precedes

theorem opens_operator {bound : Nat} {front : List Lexeme} {op : BinaryOp} :
    Opens bound (front ++ [.operator op]) ↔ rank op < bound ∧ EndsOperand front :=
  opens_concat

theorem Opens.tighten {bound bound' : Nat} {before : List Lexeme} (opens : Opens bound before)
    (tighter : bound ≤ bound') : Opens bound' before := by
  intro front last isLast
  have precedes := opens front last isLast
  cases last with
  | operator op => exact ⟨Nat.lt_of_lt_of_le precedes.1 tighter, precedes.2⟩
  | _ => exact precedes

/-- No term begins where an operand ends. -/
theorem Opens.not_endsOperand {bound : Nat} {before : List Lexeme} (opens : Opens bound before) :
    ¬ EndsOperand before := by
  rintro ⟨front, last, same, isEnd⟩
  have precedes := opens front last same
  cases last with
  | leaf _ | closing _ => exact precedes
  | _ => exact isEnd

theorem signed_concat (signs : List Sign) (sign : Sign) :
    signed (signs ++ [sign]) = signed signs ++ [.operator sign.op] := by
  simp [signed]

theorem signed_inj {signs signs' : List Sign} (same : signed signs = signed signs') :
    signs = signs' := by
  refine List.map_injective_iff.mpr ?_ same
  intro sign sign' equal
  cases sign <;> cases sign' <;> first | rfl | cases equal

/-- Signs end no operand. -/
theorem Opens.not_endsOperand_signed {bound : Nat} {before : List Lexeme}
    (opens : Opens bound before) (signs : List Sign) : ¬ EndsOperand (before ++ signed signs) := by
  rcases List.eq_nil_or_concat signs with rfl | ⟨init, last, rfl⟩
  · rw [signed, List.map_nil, List.append_nil]
    exact opens.not_endsOperand
  · rw [List.concat_eq_append, signed_concat, ← List.append_assoc, endsOperand_concat]
    exact id

/-- Behind a sign no further operand begins that does not have the sign. -/
theorem Opens.signs_eq_nil {bound bound' : Nat} {before : List Lexeme} {signs : List Sign}
    (opens : Opens bound before) (opens' : Opens bound' (before ++ signed signs)) :
    signs = [] := by
  rcases List.eq_nil_or_concat signs with rfl | ⟨init, last, rfl⟩
  · rfl
  · rw [List.concat_eq_append, signed_concat, ← List.append_assoc, opens_operator] at opens'
    exact absurd opens'.2 (opens.not_endsOperand_signed init)

/-- The signs before an operand begin in one place. -/
theorem signs_unique {bound : Nat} {before before' : List Lexeme} {signs signs' : List Sign}
    (opens : Opens bound before) (opens' : Opens bound before')
    (same : before ++ signed signs = before' ++ signed signs') :
    before = before' ∧ signs = signs' := by
  rcases List.append_eq_append_iff.mp same with ⟨middle, front, back⟩ | ⟨middle, front, back⟩
  · obtain ⟨further, signs', rfl, rfl, equal⟩ := List.map_eq_append_iff.mp back
    cases opens.signs_eq_nil (front ▸ opens')
    exact ⟨by simpa using front.symm, signed_inj equal⟩
  · obtain ⟨further, signs, rfl, rfl, equal⟩ := List.map_eq_append_iff.mp back
    cases opens'.signs_eq_nil (front ▸ opens)
    exact ⟨by simpa using front, (signed_inj equal).symm⟩

/-- A name stands before a bracket or it does not. -/
theorem headed_unique {before before' : List Lexeme} {head head' : Option String}
    (starts : ¬ EndsOperand before) (starts' : ¬ EndsOperand before')
    (same : before ++ headed head = before' ++ headed head') :
    before = before' ∧ head = head' := by
  match head, head' with
  | none, none => exact ⟨List.append_cancel_right same, rfl⟩
  | none, some name =>
      rw [headed, Option.map_none, Option.toList_none, List.append_nil] at same
      exact absurd (same ▸ endsOperand_concat.mpr trivial) starts
  | some name, none =>
      rw [headed, headed, Option.map_none, Option.toList_none, List.append_nil] at same
      exact absurd (same ▸ endsOperand_concat.mpr trivial) starts'
  | some _, some _ =>
      obtain ⟨front, name⟩ := List.append_inj' same rfl
      cases name
      exact ⟨front, rfl⟩

namespace Term

/-- Where both terms may begin, what is written before them and the terms themselves are told
apart by their common end. -/
def Splits (bound : Nat) (term term' : Term) : Prop :=
  ∀ ⦃before before' : List Lexeme⦄, Opens bound before → Opens bound before' →
    before ++ term.lexemes = before' ++ term'.lexemes → before = before' ∧ term = term'

theorem Splits.symm {bound : Nat} {term term' : Term} (splits : Splits bound term term') :
    Splits bound term' term := by
  intro before before' opens opens' same
  obtain ⟨rfl, rfl⟩ := splits opens' opens same.symm
  exact ⟨rfl, rfl⟩

theorem lexemes_leaf_append {before : List Lexeme} {signs : List Sign} {word : Leaf} :
    before ++ (leaf signs word).lexemes = (before ++ signed signs) ++ [.leaf word] := by
  simp [lexemes]

theorem lexemes_operator_append {before : List Lexeme} {op : BinaryOp} {left right : Term} :
    before ++ (operator op left right).lexemes =
      (before ++ left.lexemes ++ [.operator op]) ++ right.lexemes := by
  simp [lexemes]

theorem lexemes_brackets_append {before : List Lexeme} {signs : List Sign}
    {head : Option String} {kind : Bracket} {items : List Term} :
    before ++ (brackets signs head kind items).lexemes =
      ((before ++ signed signs ++ headed head) ++ .opening kind :: joined items) ++
        [.closing kind] := by
  simp [lexemes]

theorem endsOperand_lexemes {before : List Lexeme} : ∀ term : Term,
    EndsOperand (before ++ term.lexemes)
  | .leaf _ _ => by
      rw [lexemes_leaf_append, endsOperand_concat]
      trivial
  | .brackets _ _ _ _ => by
      rw [lexemes_brackets_append, endsOperand_concat]
      trivial
  | .operator _ _ right => by
      rw [lexemes_operator_append]
      exact endsOperand_lexemes right

/-- No term begins behind another one. -/
theorem not_opens_lexemes {bound : Nat} {before : List Lexeme} (term : Term) :
    ¬ Opens bound (before ++ term.lexemes) :=
  fun opens => opens.not_endsOperand (endsOperand_lexemes term)

/-- The lexemes of terms with a comma behind each. -/
def joinedBefore (items : List Term) : List Lexeme :=
  match items with
  | [] => []
  | first :: rest => joined (first :: rest) ++ [.comma]

theorem joinedFurther_concat (items : List Term) (last : Term) :
    joinedFurther (items ++ [last]) = joinedFurther items ++ .comma :: last.lexemes := by
  induction items with
  | nil => simp [joinedFurther]
  | cons first rest induction => simp [joinedFurther, induction]

theorem joined_concat (items : List Term) (last : Term) :
    joined (items ++ [last]) = joinedBefore items ++ last.lexemes := by
  cases items with
  | nil => simp [joined, joinedBefore, joinedFurther]
  | cons first rest => simp [joined, joinedBefore, joinedFurther_concat]

theorem opens_joinedBefore {before : List Lexeme} {kind : Bracket} (items : List Term) :
    Opens 0 (before ++ .opening kind :: joinedBefore items) := by
  cases items with
  | nil => exact opens_concat.mpr trivial
  | cons first rest =>
      rw [joinedBefore, ← List.cons_append, ← List.append_assoc, opens_concat]
      trivial

/-- Terms in brackets are told apart if any two of them are. -/
theorem joined_unique {before before' : List Lexeme} {kind kind' : Bracket}
    {items items' : List Term} (split : ∀ item ∈ items, ∀ item' ∈ items', Splits 0 item item')
    (same : before ++ .opening kind :: joined items =
      before' ++ .opening kind' :: joined items') :
    before ++ [.opening kind] = before' ++ [.opening kind'] ∧ items = items' := by
  induction items using List.reverseRecOn generalizing items' with
  | nil =>
      rcases List.eq_nil_or_concat items' with rfl | ⟨init', last', rfl⟩
      · exact ⟨same, rfl⟩
      · rw [List.concat_eq_append, joined_concat, ← List.cons_append, ← List.append_assoc] at same
        have opens : Opens 0 (before ++ .opening kind :: joined []) := opens_concat.mpr trivial
        rw [same] at opens
        exact absurd opens (not_opens_lexemes _)
  | append_singleton init last induction =>
      rw [joined_concat, ← List.cons_append, ← List.append_assoc] at same
      rcases List.eq_nil_or_concat items' with rfl | ⟨init', last', rfl⟩
      · have opens : Opens 0 (before' ++ .opening kind' :: joined []) :=
          opens_concat.mpr trivial
        rw [← same] at opens
        exact absurd opens (not_opens_lexemes _)
      · rw [List.concat_eq_append] at same split ⊢
        rw [joined_concat, ← List.cons_append, ← List.append_assoc] at same
        obtain ⟨front, rfl⟩ := split last (by simp) last' (by simp) (opens_joinedBefore init)
          (opens_joinedBefore init') same
        have splitInit : ∀ item ∈ init, ∀ item' ∈ init', Splits 0 item item' :=
          fun item member item' member' => split item (List.mem_append_left _ member) item'
            (List.mem_append_left _ member')
        match init, init', front with
        | [], [], front => exact ⟨front, rfl⟩
        | [], _ :: _, front =>
            rw [joinedBefore, joinedBefore, ← List.cons_append, ← List.append_assoc] at front
            cases (List.append_inj' front rfl).2
        | _ :: _, [], front =>
            rw [joinedBefore, joinedBefore, ← List.cons_append, ← List.append_assoc] at front
            cases (List.append_inj' front rfl).2
        | first :: rest, first' :: rest', front =>
            rw [joinedBefore, joinedBefore, ← List.cons_append, ← List.cons_append,
              ← List.append_assoc, ← List.append_assoc] at front
            obtain ⟨opened, initial⟩ := induction splitInit (List.append_cancel_right front)
            exact ⟨opened, by rw [initial]⟩

/-- An operator with its operands does not extend as far as a term that can be told apart from
its right operand, for then it would stand before that term. -/
theorem Splits.of_right {bound : Nat} {op : BinaryOp} {left right term : Term}
    (above : bound ≤ rank op) (split : Splits (rank op + 1) right term) :
    Splits bound (.operator op left right) term := by
  intro before before' _ opens' same
  rw [lexemes_operator_append] at same
  obtain ⟨rfl, -⟩ := split (opens_operator.mpr ⟨Nat.lt_succ_self _, endsOperand_lexemes left⟩)
    (opens'.tighten (Nat.le_succ_of_le above)) same
  exact absurd (opens_operator.mp opens').1 (Nat.not_lt.mpr above)

/-- Operators of one rank take the same operands if both sides of them are told apart. -/
theorem Splits.of_sides {bound : Nat} {op op' : BinaryOp} {left right left' right' : Term}
    (above : bound ≤ rank op) (equal : rank op = rank op')
    (splitLeft : Splits (rank op) left left') (splitRight : Splits (rank op + 1) right right') :
    Splits bound (.operator op left right) (.operator op' left' right') := by
  intro before before' opens opens' same
  rw [lexemes_operator_append, lexemes_operator_append] at same
  obtain ⟨front, rfl⟩ := splitRight
    (opens_operator.mpr ⟨Nat.lt_succ_self _, endsOperand_lexemes left⟩)
    (opens_operator.mpr ⟨equal ▸ Nat.lt_succ_self _, endsOperand_lexemes left'⟩) same
  obtain ⟨-, sign⟩ := List.append_inj' front rfl
  cases sign
  obtain ⟨rfl, rfl⟩ := splitLeft (opens.tighten above) (opens'.tighten above)
    (List.append_cancel_right front)
  exact ⟨rfl, rfl⟩

theorem splits_leaf {bound : Nat} {signs signs' : List Sign} {word word' : Leaf} :
    Splits bound (.leaf signs word) (.leaf signs' word') := by
  intro before before' opens opens' same
  rw [lexemes_leaf_append, lexemes_leaf_append] at same
  obtain ⟨front, last⟩ := List.append_inj' same rfl
  cases last
  obtain ⟨rfl, rfl⟩ := signs_unique opens opens' front
  exact ⟨rfl, rfl⟩

theorem splits_leaf_brackets {bound : Nat} {signs signs' : List Sign} {word : Leaf}
    {head : Option String} {kind : Bracket} {items : List Term} :
    Splits bound (.leaf signs word) (.brackets signs' head kind items) := by
  intro before before' _ _ same
  rw [lexemes_leaf_append, lexemes_brackets_append] at same
  cases (List.append_inj' same rfl).2

theorem Splits.of_items {bound : Nat} {signs signs' : List Sign} {head head' : Option String}
    {kind kind' : Bracket} {items items' : List Term}
    (split : ∀ item ∈ items, ∀ item' ∈ items', Splits 0 item item') :
    Splits bound (.brackets signs head kind items) (.brackets signs' head' kind' items') := by
  intro before before' opens opens' same
  rw [lexemes_brackets_append, lexemes_brackets_append] at same
  obtain ⟨inside, last⟩ := List.append_inj' same rfl
  cases last
  obtain ⟨opened, rfl⟩ := joined_unique split inside
  obtain ⟨front, rfl⟩ := headed_unique (opens.not_endsOperand_signed signs)
    (opens'.not_endsOperand_signed signs') (List.append_cancel_right opened)
  obtain ⟨rfl, rfl⟩ := signs_unique opens opens' front
  exact ⟨rfl, rfl⟩

/-- Two readings are told apart from their ends, where the operator on the left of an operand
says how far the operand reaches. -/
theorem Layered.splits {bound : Nat} {term term' : Term} (layered : term.Layered bound)
    (layered' : term'.Layered bound) : Splits bound term term' := by
  match term, term', layered, layered' with
  | .operator op left right, .operator op' left' right',
      .operator above leftLayered rightLayered,
      .operator above' leftLayered' rightLayered' =>
      rcases Nat.lt_trichotomy (rank op) (rank op') with tighter | equal | looser
      · exact .of_right above
          (rightLayered.splits (.operator tighter leftLayered' rightLayered'))
      · rw [← equal] at leftLayered' rightLayered'
        exact .of_sides above equal (leftLayered.splits leftLayered')
          (rightLayered.splits rightLayered')
      · exact (Splits.of_right above'
          (rightLayered'.splits (.operator looser leftLayered rightLayered))).symm
  | .operator _ _ _, .leaf _ _, .operator above _ rightLayered, _ =>
      exact .of_right above (rightLayered.splits .leaf)
  | .operator _ _ _, .brackets _ _ _ _, .operator above _ rightLayered, .brackets layered' =>
      exact .of_right above (rightLayered.splits (.brackets layered'))
  | .leaf _ _, .operator _ _ _, _, .operator above' _ rightLayered' =>
      exact (Splits.of_right above' (rightLayered'.splits .leaf)).symm
  | .brackets _ _ _ _, .operator _ _ _, .brackets layered, .operator above' _ rightLayered' =>
      exact (Splits.of_right above' (rightLayered'.splits (.brackets layered))).symm
  | .leaf _ _, .leaf _ _, _, _ => exact splits_leaf
  | .leaf _ _, .brackets _ _ _ _, _, _ => exact splits_leaf_brackets
  | .brackets _ _ _ _, .leaf _ _, _, _ => exact splits_leaf_brackets.symm
  | .brackets _ _ _ items, .brackets _ _ _ items', .brackets layered, .brackets layered' =>
      refine .of_items fun item member item' member' => ?_
      have smaller := List.sizeOf_lt_of_mem member
      have smaller' := List.sizeOf_lt_of_mem member'
      exact (layered item member).splits (layered' item' member')
termination_by sizeOf term + sizeOf term'

end Term

/-- Java does not read a text in two ways. -/
theorem Reads.unique {text : String} {term term' : Term} (reads : Reads text term)
    (reads' : Reads text term') : term = term' :=
  (reads.layered.splits reads'.layered opens_nil opens_nil
    (reads.written.unique reads'.written)).2

namespace Term

theorem operator?_eq_some {term : Term} {op : BinaryOp} :
    term.operator? = some op ↔ ∃ left right, term = .operator op left right := by
  cases term <;> simp [operator?]

/-- Two readings with an operator between them can be regrouped into one. -/
theorem Layered.exists_join {bound : Nat} {op : BinaryOp} {left right : Term}
    (above : bound ≤ rank op) (leftLayered : left.Layered bound)
    (rightLayered : right.Layered bound) :
    ∃ term : Term, term.Layered bound ∧
      term.lexemes = (Term.operator op left right).lexemes := by
  -- The outermost operator of the result is the last one of the loosest among the given
  -- operator and the outermost ones of both sides.
  by_cases onRight : ∃ op', right.operator? = some op' ∧ rank op' ≤ rank op ∧
      ∀ inner, left.operator? = some inner → rank op' ≤ rank inner
  · obtain ⟨op', outermost, loosest, leftAbove⟩ := onRight
    obtain ⟨middle, last, rfl⟩ := operator?_eq_some.mp outermost
    cases rightLayered with
    | operator above' middleLayered lastLayered =>
        obtain ⟨term, layered, written⟩ :=
          (leftLayered.rebound leftAbove).exists_join loosest middleLayered
        exact ⟨.operator op' term last, .operator above' layered lastLayered,
          by simp [lexemes, written]⟩
  by_cases onLeft : ∃ op', left.operator? = some op' ∧ rank op' < rank op ∧
      ∀ inner, right.operator? = some inner → rank op' < rank inner
  · obtain ⟨op', outermost, loosest, rightAbove⟩ := onLeft
    obtain ⟨first, middle, rfl⟩ := operator?_eq_some.mp outermost
    cases leftLayered with
    | operator above' firstLayered middleLayered =>
        obtain ⟨term, layered, written⟩ :=
          middleLayered.exists_join loosest (rightLayered.rebound rightAbove)
        exact ⟨.operator op' first term, .operator above' firstLayered layered,
          by simp [lexemes, written]⟩
  refine ⟨.operator op left right, .operator above (leftLayered.rebound ?_)
    (rightLayered.rebound ?_), rfl⟩
  · intro op' outermost
    by_contra looser
    rw [Nat.not_le] at looser
    refine onLeft ⟨op', outermost, looser, fun inner rightmost => ?_⟩
    by_contra notTighter
    rw [Nat.not_lt] at notTighter
    refine onRight ⟨inner, rightmost, Nat.le_trans notTighter (Nat.le_of_lt looser), ?_⟩
    intro again same
    rw [outermost] at same
    cases same
    exact notTighter
  · intro op' outermost
    by_contra notTighter
    rw [Nat.not_le, Nat.lt_succ_iff] at notTighter
    refine onRight ⟨op', outermost, notTighter, fun inner leftmost => ?_⟩
    by_contra looser
    rw [Nat.not_le] at looser
    refine onLeft ⟨inner, leftmost, Nat.lt_of_lt_of_le looser notTighter, ?_⟩
    intro again same
    rw [outermost] at same
    cases same
    exact looser
termination_by sizeOf left + sizeOf right

mutual

theorem exists_layered : ∀ term : Term,
    ∃ reading : Term, reading.Layered 0 ∧ reading.lexemes = term.lexemes
  | .leaf signs word => ⟨.leaf signs word, .leaf, rfl⟩
  | .brackets signs head kind items => by
      obtain ⟨readings, layered, written, _⟩ := exists_layered_items items
      exact ⟨.brackets signs head kind readings, .brackets layered, by simp [lexemes, written]⟩
  | .operator op left right => by
      obtain ⟨left', leftLayered, leftWritten⟩ := exists_layered left
      obtain ⟨right', rightLayered, rightWritten⟩ := exists_layered right
      obtain ⟨term, layered, written⟩ :=
        leftLayered.exists_join (Nat.zero_le (rank op)) rightLayered
      exact ⟨term, layered, by rw [written, lexemes, lexemes, leftWritten, rightWritten]⟩

theorem exists_layered_items : ∀ items : List Term,
    ∃ readings : List Term, (∀ reading ∈ readings, reading.Layered 0) ∧
      joined readings = joined items ∧ joinedFurther readings = joinedFurther items
  | [] => ⟨[], by simp, rfl, rfl⟩
  | first :: rest => by
      obtain ⟨reading, layered, written⟩ := exists_layered first
      obtain ⟨readings, restLayered, _, restWritten⟩ := exists_layered_items rest
      exact ⟨reading :: readings, List.forall_mem_cons.mpr ⟨layered, restLayered⟩,
        by rw [joined, joined, written, restWritten],
        by rw [joinedFurther, joinedFurther, written, restWritten]⟩

end

end Term

/-- Java reads every text that can be grouped at all. -/
theorem exists_reads {text : String} {term : Term} (written : Lexes text.toList term.lexemes) :
    ∃ reading, Reads text reading := by
  obtain ⟨reading, layered, same⟩ := term.exists_layered
  rw [← same] at written
  exact ⟨reading, written, layered⟩

end Java

end Procedural
