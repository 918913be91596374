import Procedural.Proofs.Layout.JavaText
import Procedural.Proofs.Reader.FromText
import Procedural.Proofs.Syntax.Nodes

/-!
# Groups that Java keeps

The Java text of an expression has the names of the program, and no brackets beyond those of the
program.  Java can group the operands otherwise for two reasons.  A name of the program need not
be a name of Java: at a `-` it falls apart.  And Java binds `&&` before `||`, and `<` and `>`
before `==` and `!=`, where the program binds from the left.  Elsewhere Java groups as the program
does.
-/

namespace Procedural

namespace Expr

@[simp] theorem operator?_bare (expr : Expr) : expr.bare.operator? = expr.operator? := by
  cases expr <;> rfl

theorem isLayered_bare {expr : Expr} : expr.bare.IsLayered ↔ expr.IsLayered := by
  cases expr with
  | binary note op left right => simp [relabel, IsLayered]
  | _ => rfl

end Expr

namespace Java

/-- Operators of one level, of which Java binds the first one more tightly. -/
def overtaking : List (BinaryOp × BinaryOp) :=
  [(.and, .or), (.less, .equal), (.less, .unequal), (.greater, .equal), (.greater, .unequal)]

/-- Behind the second operator, the first one takes the operand between them in Java. -/
def Overtakes (op inner : BinaryOp) : Prop :=
  (op, inner) ∈ overtaking

instance (op inner : BinaryOp) : Decidable (Overtakes op inner) :=
  inferInstanceAs (Decidable ((op, inner) ∈ overtaking))

theorem Overtakes.rank_lt {op inner : BinaryOp} (overtakes : Overtakes op inner) :
    rank inner < rank op := by
  have all : ∀ pair ∈ overtaking, rank pair.2 < rank pair.1 := by decide
  exact all _ overtakes

theorem Overtakes.notPower {op inner : BinaryOp} (overtakes : Overtakes op inner) :
    op ≠ .power ∧ inner ≠ .power := by
  have all : ∀ pair ∈ overtaking, pair.1 ≠ .power ∧ pair.2 ≠ .power := by decide
  exact all _ overtakes

/-- Java keeps the order of levels. -/
theorem rank_lt_of_level_lt {op inner : BinaryOp} (notPower : inner ≠ .power)
    (tighter : op.level.rank < inner.level.rank) : rank op < rank inner := by
  cases op <;> cases inner <;> first | exact absurd rfl notPower | revert tighter; decide

/-- Java keeps the order of operators from the left unless one overtakes the other. -/
theorem rank_le_of_level_le {op inner : BinaryOp} (notPower : op ≠ .power)
    (notPower' : inner ≠ .power) (tighter : op.level.rank ≤ inner.level.rank)
    (keeps : ¬ Overtakes op inner) : rank op ≤ rank inner := by
  cases op <;> cases inner <;>
    first | exact absurd rfl notPower | exact absurd rfl notPower' | revert tighter keeps; decide

end Java

/-- Java gives the last part of the left operand to the operator of the expression. -/
def Expr.IsRegrouped : Expr → Prop
  | .binary _ op left _ => ∃ inner ∈ left.operator?, Java.Overtakes op inner
  | _ => False

instance : DecidablePred Expr.IsRegrouped
  | .binary _ op left _ =>
      inferInstanceAs (Decidable (∃ inner ∈ left.operator?, Java.Overtakes op inner))
  | .literal .. | .group .. | .access .. | .element .. | .call .. | .list .. => isFalse id

namespace Java

theorem operator?_term {expr : Expr} {op : BinaryOp} :
    (term expr).operator? = some op ↔ expr.operator? = some op ∧ op ≠ .power := by
  cases expr with
  | binary note op' left right =>
      by_cases power : op' = .power
      · subst power
        simp +contextual [term, Term.operator?, Expr.operator?, eq_comm]
      · rw [term_binary power]
        simp only [Term.operator?, Expr.operator?, Option.some.injEq]
        exact ⟨fun same => ⟨same, same ▸ power⟩, And.left⟩
  | literal note value => simp [term, operator?_valueTerm, Expr.operator?]
  | _ => simp [term, Term.operator?, Expr.operator?]

mutual

/-- Java keeps the groups of an expression in which no operator overtakes another. -/
theorem layered_term : ∀ {expr : Expr},
    (∀ node ∈ expr.nodes, node.IsLayered ∧ ¬ node.IsRegrouped) → (term expr).Layered 0
  | .literal _ _, _ => layered_valueTerm _
  | .group _ inner, kept => by
      have innerLayered := layered_term (List.forall_mem_cons.mp kept).2
      exact .brackets (List.forall_mem_singleton.mpr innerLayered)
  | .binary _ op left right, kept => by
      obtain ⟨⟨⟨leftTighter, rightTighter⟩, keeps⟩, inside⟩ := List.forall_mem_cons.mp kept
      obtain ⟨leftKept, rightKept⟩ := List.forall_mem_append.mp inside
      have leftLayered := layered_term leftKept
      have rightLayered := layered_term rightKept
      by_cases power : op = .power
      · subst power
        exact .brackets (List.forall_mem_cons.mpr
          ⟨leftLayered, List.forall_mem_singleton.mpr rightLayered⟩)
      · rw [term_binary power]
        refine .operator (Nat.zero_le _) (leftLayered.rebound ?_) (rightLayered.rebound ?_)
        · intro inner outermost
          obtain ⟨outermost, notPower⟩ := operator?_term.mp outermost
          exact rank_le_of_level_le power notPower (leftTighter inner outermost)
            fun overtakes => keeps ⟨inner, outermost, overtakes⟩
        · intro inner outermost
          obtain ⟨outermost, notPower⟩ := operator?_term.mp outermost
          exact rank_lt_of_level_lt notPower (rightTighter inner outermost)
  | .access _ _, _ => .leaf
  | .element _ _ index, kept => by
      have indexLayered := layered_term (List.forall_mem_cons.mp kept).2
      exact .brackets (List.forall_mem_singleton.mpr indexLayered)
  | .call _ _ arguments, kept =>
      .brackets (layered_termsOfItems (List.forall_mem_cons.mp kept).2)
  | .list _ elements, kept =>
      .brackets (layered_termsOfItems (List.forall_mem_cons.mp kept).2)

theorem layered_termsOfItems : ∀ {items : List Expr},
    (∀ node ∈ Expr.nodesOfList items, node.IsLayered ∧ ¬ node.IsRegrouped) →
    ∀ item ∈ termsOfItems items, item.Layered 0
  | [], _ => List.forall_mem_nil _
  | first :: rest, kept => by
      obtain ⟨firstKept, restKept⟩ := List.forall_mem_append.mp kept
      exact List.forall_mem_cons.mpr
        ⟨layered_term firstKept, layered_termsOfItems restKept⟩

end

mutual

/-- Where one operator overtakes another, Java groups otherwise. -/
theorem not_isRegrouped_of_layered : ∀ {expr : Expr} {bound : Nat},
    (term expr).Layered bound → ∀ node ∈ expr.nodes, ¬ node.IsRegrouped
  | .literal _ _, _, _ => by simp [Expr.nodes, Expr.IsRegrouped]
  | .group _ inner, _, .brackets items => by
      have innerLayered := List.forall_mem_singleton.mp items
      exact List.forall_mem_cons.mpr ⟨id, not_isRegrouped_of_layered innerLayered⟩
  | .binary _ op left right, _, layered => by
      by_cases power : op = .power
      · subst power
        cases layered with
        | brackets items =>
            obtain ⟨leftLayered, rightLayered⟩ := List.forall_mem_cons.mp items
            refine List.forall_mem_cons.mpr ⟨?_, List.forall_mem_append.mpr
              ⟨not_isRegrouped_of_layered leftLayered,
                not_isRegrouped_of_layered (List.forall_mem_singleton.mp rightLayered)⟩⟩
            rintro ⟨inner, -, overtakes⟩
            exact overtakes.notPower.1 rfl
      · rw [term_binary power] at layered
        cases layered with
        | operator _ leftLayered rightLayered =>
            refine List.forall_mem_cons.mpr ⟨?_, List.forall_mem_append.mpr
              ⟨not_isRegrouped_of_layered leftLayered, not_isRegrouped_of_layered rightLayered⟩⟩
            rintro ⟨inner, outermost, overtakes⟩
            have above := leftLayered.rank_le
              (operator?_term.mpr ⟨outermost, overtakes.notPower.2⟩)
            exact absurd overtakes.rank_lt (Nat.not_lt.mpr above)
  | .access _ _, _, _ => by simp [Expr.nodes, Expr.IsRegrouped]
  | .element _ _ index, _, .brackets items => by
      have indexLayered := List.forall_mem_singleton.mp items
      exact List.forall_mem_cons.mpr ⟨id, not_isRegrouped_of_layered indexLayered⟩
  | .call _ _ arguments, _, .brackets items =>
      List.forall_mem_cons.mpr ⟨id, not_isRegrouped_of_items items⟩
  | .list _ elements, _, .brackets items =>
      List.forall_mem_cons.mpr ⟨id, not_isRegrouped_of_items items⟩

theorem not_isRegrouped_of_items : ∀ {items : List Expr},
    (∀ item ∈ termsOfItems items, item.Layered 0) →
    ∀ node ∈ Expr.nodesOfList items, ¬ node.IsRegrouped
  | [], _ => List.forall_mem_nil _
  | first :: rest, layered => by
      obtain ⟨firstLayered, restLayered⟩ := List.forall_mem_cons.mp layered
      exact List.forall_mem_append.mpr
        ⟨not_isRegrouped_of_layered firstLayered, not_isRegrouped_of_items restLayered⟩

end

/-- An operand between two operators goes to the second one if that overtakes the first. -/
theorem reads_overtaken {note note' : Note} {op inner : BinaryOp} {left middle right : Expr}
    (overtakes : Overtakes op inner)
    (words : ∀ node ∈ (Expr.binary note op (.binary note' inner left middle) right).nodes,
      node.HasJavaWord)
    (leftLayered : (term left).Layered (rank inner))
    (middleLayered : (term middle).Layered (rank op))
    (rightLayered : (term right).Layered (rank op + 1)) :
    Reads (expression (.binary note op (.binary note' inner left middle) right))
      (.operator inner (term left) (.operator op (term middle) (term right))) := by
  have written := lexes_expression words
  rw [term_binary overtakes.notPower.1, term_binary overtakes.notPower.2] at written
  refine ⟨by simpa [Term.lexemes] using written, ?_⟩
  exact .operator (Nat.zero_le _) leftLayered
    (.operator overtakes.rank_lt middleLayered rightLayered)

/-- A name with a `-` in it is a difference, and an operator that binds more tightly takes its
last part. -/
theorem reads_hyphenated {note note' : Note} {op : BinaryOp} {first last : String} {right : Expr}
    (isFirst : isName first.toList = true) (isLast : isName last.toList = true)
    (tighter : rank .subtract < rank op) (words : ∀ node ∈ right.nodes, node.HasJavaWord)
    (rightLayered : (term right).Layered (rank op + 1)) :
    Reads (expression (.binary note op (.access note' (first ++ "-" ++ last)) right))
      (.operator .subtract (.leaf [] (.name first))
        (.operator op (.leaf [] (.name last)) (term right))) := by
  have notPower : op ≠ .power := by
    rintro rfl
    revert tighter
    decide
  have named : ∀ {name : String}, isName name.toList = true →
      Yields name.toList (Term.leaf [] (.name name)).lexemes := by
    intro name isName
    have yields := (scans_name isName).yields
    rwa [String.ofList_toList] at yields
  have behind := @yields_infixed _ _ _ _ op (named isLast) (yields_term words)
  obtain ⟨c, rest, same, inWord⟩ := exists_cons_of_isName isLast
  have minus : Lexes ('-' :: (last.toList ++ (' ' :: op.symbol.toList ++ [' ']) ++
      chars (pieces right))) (.operator .subtract ::
        (Term.operator op (.leaf [] (.name last)) (term right)).lexemes) := by
    have lexes := behind delimited_nil .nil
    rw [List.append_nil, List.append_nil] at lexes
    refine .lexeme ?_ lexes
    rw [same]
    exact scan_minus inWord
  have whole := named isFirst (delimited_cons rfl (by decide)) minus
  refine ⟨?_, ?_⟩
  · have written : (expression (.binary note op (.access note' (first ++ "-" ++ last))
        right)).toList = first.toList ++ '-' :: (last.toList ++
          (' ' :: op.symbol.toList ++ [' ']) ++ chars (pieces right)) := by
      rw [expression, pieces_binary notPower, String.toList_join]
      simp [pieces, chars, toString]
    rw [written]
    exact whole
  · exact .operator (Nat.zero_le _) .leaf (.operator tighter .leaf rightLayered)

end Java

open Java

theorem Program.isLayered_of_ofText {text : String} {program : Program}
    (read : Program.ofText text = .ok program) {written expr : Expr}
    (member : written ∈ program.nodes) (same : expr.bare = written.bare) :
    ∀ node ∈ expr.nodes, node.IsLayered := by
  obtain ⟨tokens, derived, _⟩ := Program.isProgram_of_ofText read
  intro node inside
  have bareInside : node.bare ∈ expr.bare.nodes := by
    rw [Expr.nodes_bare]
    exact List.mem_map_of_mem inside
  rw [same, Expr.nodes_bare] at bareInside
  obtain ⟨node', inside', same'⟩ := List.mem_map.mp bareInside
  rw [← Expr.isLayered_bare, ← same', Expr.isLayered_bare]
  exact derived.layered node' (program.nodesClosed written member inside')

/-- The Java text of an expression of a program, however it is annotated, is read in one way at
most.  It is read with the groups of the program exactly if every name in it is a name of Java
and no `&&` follows an operand that `||` joins, and no `<` or `>` one that `==` or `!=` joins,
without brackets around that operand.  If every name is a name of Java, the text is read in
some way, and then these are the only places where the groups differ. -/
theorem Program.java_groups_iff {text : String} {program : Program}
    (read : Program.ofText text = .ok program) {written expr : Expr}
    (member : written ∈ program.nodes) (same : expr.bare = written.bare) :
    (Reads (Java.expression expr) (term expr) ↔
      ∀ node ∈ expr.nodes, node.HasJavaWord ∧ ¬ node.IsRegrouped) ∧
    (∀ reading other, Reads (Java.expression expr) reading →
      Reads (Java.expression expr) other → reading = other) ∧
    ((∀ node ∈ expr.nodes, node.HasJavaWord) →
      ∃ reading, Reads (Java.expression expr) reading) := by
  have layered := Program.isLayered_of_ofText read member same
  refine ⟨⟨?_, ?_⟩, fun _ _ reads reads' => reads.unique reads', ?_⟩
  · intro reads node inside
    exact ⟨hasJavaWord_of_lexes reads.written node inside,
      not_isRegrouped_of_layered reads.layered node inside⟩
  · intro keeps
    exact ⟨lexes_expression fun node inside => (keeps node inside).1,
      layered_term fun node inside => ⟨layered node inside, (keeps node inside).2⟩⟩
  · intro words
    exact exists_reads (lexes_expression words)

/-- A comparison of a comparison keeps its groups if the outer one is an equality. -/
theorem Program.java_groups_iff_equality :
    ∃ text program expr,
      text = "VAL ordered : Boolean = size ( items ) > -2 == TRUE ;" ∧
      Program.ofText text = .ok program ∧ expr ∈ program.nodes ∧
      Java.expression expr = "size(items) > -2 == true" ∧
      Reads "size(items) > -2 == true" (term expr) := by
  have found :
      ((Program.ofText "VAL ordered : Boolean = size ( items ) > -2 == TRUE ;").toOption.map
        fun program => program.nodes.any fun expr =>
          decide (Java.expression expr = "size(items) > -2 == true" ∧
            ∀ node ∈ expr.nodes, node.HasJavaWord ∧ ¬ node.IsRegrouped)) = some true := by
    decide +kernel
  cases read : Program.ofText "VAL ordered : Boolean = size ( items ) > -2 == TRUE ;" with
  | error problem =>
      rw [read] at found
      cases found
  | ok program =>
      rw [read] at found
      obtain ⟨expr, member, holds⟩ := List.any_eq_true.mp (Option.some.inj found)
      obtain ⟨text, keeps⟩ := of_decide_eq_true holds
      have reads := (Program.java_groups_iff read member rfl).1.mpr keeps
      exact ⟨_, program, expr, rfl, read, member, text, text ▸ reads⟩

/-- The program joins the first two operands, and Java joins the last two. -/
theorem Program.java_groups_otherwise :
    ∃ text program expr reading,
      text = "FUN main ( ) : Integer DO IF TRUE || FALSE && FALSE DO RETURN 1 ; END " ++
        "RETURN 2 ; END" ∧
      Program.ofText text = .ok program ∧ expr ∈ program.nodes ∧
      Java.expression expr = "true || false && false" ∧
      reading = .operator .or (.leaf [] (.value "true"))
        (.operator .and (.leaf [] (.value "false")) (.leaf [] (.value "false"))) ∧
      Reads "true || false && false" reading ∧ reading ≠ term expr := by
  have found : ((Program.ofText ("FUN main ( ) : Integer DO IF TRUE || FALSE && FALSE DO " ++
      "RETURN 1 ; END RETURN 2 ; END")).toOption.map
      fun program => program.nodes.any fun expr =>
        decide (Java.expression expr = "true || false && false" ∧
          expr.operator? = some .and)) = some true := by
    decide +kernel
  have overtaken := @reads_overtaken (.at 0) (.at 0) .and .or (.literal (.at 0) (.boolean true))
    (.literal (.at 0) (.boolean false)) (.literal (.at 0) (.boolean false)) (by decide)
    (by simp [Expr.nodes, Expr.HasJavaWord]) (layered_valueTerm _) (layered_valueTerm _)
    (layered_valueTerm _)
  cases read : Program.ofText ("FUN main ( ) : Integer DO IF TRUE || FALSE && FALSE DO " ++
      "RETURN 1 ; END RETURN 2 ; END") with
  | error problem =>
      rw [read] at found
      cases found
  | ok program =>
      rw [read] at found
      obtain ⟨expr, member, holds⟩ := List.any_eq_true.mp (Option.some.inj found)
      obtain ⟨text, outermost⟩ := of_decide_eq_true holds
      refine ⟨_, program, expr, _, by decide, read, member, text, rfl, overtaken, ?_⟩
      intro same
      have outermost' := operator?_term.mpr ⟨outermost, by decide⟩
      rw [← same] at outermost'
      cases outermost'

end Procedural
