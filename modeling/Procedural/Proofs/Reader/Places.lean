import Procedural.Proofs.Reader.Literals
import Procedural.Proofs.Reader.Stumbling

/-!
# Places in a text

Every offset in a program is the one of a token that the program was read from: an operator
stands where its left operand starts, and everything else where its own first token does.
Where reading fails it points at a token, or behind the last one.
-/

namespace Procedural

open Grammar

/-- Some token of the text starts at the offset. -/
def StartsToken (text : String) (offset : Nat) : Prop :=
  ∃ tokens, tokenize text = .ok tokens ∧ ∃ token ∈ tokens, token.offset = offset

/-- The last token of the text ends at the offset. -/
def EndsLastToken (text : String) (offset : Nat) : Prop :=
  ∃ tokens, tokenize text = .ok tokens ∧
    ∃ token, tokens.getLast? = some token ∧ token.stop = offset

theorem isValid_utf8ByteSize (before after : String) :
    (String.Pos.Raw.mk before.utf8ByteSize).IsValid (before ++ after) :=
  String.Pos.Raw.isValid_iff_exists_append.mpr ⟨before, after, rfl, rfl⟩

theorem StartsToken.isValid {text : String} {offset : Nat} (starts : StartsToken text offset) :
    (String.Pos.Raw.mk offset).IsValid text := by
  obtain ⟨tokens, scanned, token, member, rfl⟩ := starts
  obtain ⟨before, after, rfl, same⟩ := standsIn_of_tokenize scanned token member
  rw [← same, String.append_assoc]
  exact isValid_utf8ByteSize before _

theorem EndsLastToken.isValid {text : String} {offset : Nat} (ends : EndsLastToken text offset) :
    (String.Pos.Raw.mk offset).IsValid text := by
  obtain ⟨tokens, scanned, token, last, rfl⟩ := ends
  have member := List.mem_of_getLast? last
  obtain ⟨before, after, rfl, same⟩ := standsIn_of_tokenize scanned token member
  rw [Token.stop, ← same, ← String.utf8ByteSize_append]
  exact isValid_utf8ByteSize _ after

variable {places : Nat → Prop}

/-- Everything in the program stands at one of the places. -/
structure Program.Placed (places : Nat → Prop) (program : Program) : Prop where
  nodes : ∀ node ∈ program.nodes, places node.offset
  globals : ∀ item ∈ program.globals, places item.offset
  functions : ∀ item ∈ program.functions, places item.offset

theorem Program.placed_anywhere (program : Program) : program.Placed fun _ => True :=
  ⟨fun _ _ => trivial, fun _ _ => trivial, fun _ _ => trivial⟩

/-- The one offset that is known. -/
theorem forall_mem_some {offset : Nat} (placed : places offset) :
    ∀ place ∈ some offset, places place := by
  rintro _ ⟨⟩
  exact placed

theorem Expr.mem_nodes (expr : Expr) : expr ∈ expr.nodes := by
  cases expr <;> exact List.mem_cons_self

theorem Expr.forall_mem_offset {value : Option Expr}
    (placed : ∀ node ∈ nodesOfOption value, places node.offset) :
    ∀ offset ∈ value.map Expr.offset, places offset := by
  intro offset known
  obtain ⟨expr, rfl, rfl⟩ := Option.map_eq_some_iff.mp known
  exact placed expr expr.mem_nodes

namespace Grammar

theorem JoinedFurther.placed {items : List (List Token)} {tokens : List Token}
    (joined : JoinedFurther items tokens) (placed : ∀ token ∈ tokens, places token.offset) :
    ∀ item ∈ items, ∀ token ∈ item, places token.offset := by
  induction joined with
  | nil => exact List.forall_mem_nil _
  | cons _ _ induction =>
      simp only [List.forall_mem_cons, List.forall_mem_append] at placed
      obtain ⟨-, inFirst, inLater⟩ := placed
      exact List.forall_mem_cons.mpr ⟨inFirst, induction inLater⟩

theorem Joined.placed {items : List (List Token)} {tokens : List Token}
    (joined : Joined items tokens) (placed : ∀ token ∈ tokens, places token.offset) :
    ∀ item ∈ items, ∀ token ∈ item, places token.offset := by
  cases joined with
  | nil => exact List.forall_mem_nil _
  | cons further =>
      obtain ⟨inFirst, inLater⟩ := List.forall_mem_append.mp placed
      exact List.forall_mem_cons.mpr ⟨inFirst, further.placed inLater⟩

/-- Expressions of which each stands where one of its own tokens does. -/
theorem Joined.placed_nodes {parts : List (List Token × Expr)} {tokens : List Token}
    (joined : Joined (parts.map Prod.fst) tokens) (placed : ∀ token ∈ tokens, places token.offset)
    (each : ∀ part ∈ parts, (∀ token ∈ part.1, places token.offset) →
      ∀ node ∈ part.2.nodes, places node.offset) :
    ∀ node ∈ Expr.nodesOfList (parts.map Prod.snd), places node.offset := by
  intro node member
  obtain ⟨_, isItem, member⟩ := Expr.mem_nodesOfList.mp member
  obtain ⟨part, isPart, rfl⟩ := List.mem_map.mp isItem
  have inside := joined.placed placed part.1 (List.mem_map_of_mem isPart)
  exact each part isPart inside node member

theorem Phrase.placed {levels : List Level} {tokens : List Token} {expr : Expr}
    (phrase : Phrase levels tokens expr) (placed : ∀ token ∈ tokens, places token.offset) :
    ∀ node ∈ expr.nodes, places node.offset := by
  induction phrase with
  | literal => exact List.forall_mem_singleton.mpr (placed _ List.mem_cons_self)
  | access => exact List.forall_mem_singleton.mpr (placed _ List.mem_cons_self)
  | group _ _ _ induction =>
      simp only [List.forall_mem_cons, List.forall_mem_append] at placed
      obtain ⟨here, inside, -⟩ := placed
      exact List.forall_mem_cons.mpr ⟨here, induction inside⟩
  | element _ _ _ _ induction =>
      simp only [List.forall_mem_cons, List.forall_mem_append] at placed
      obtain ⟨here, -, inside, -⟩ := placed
      exact List.forall_mem_cons.mpr ⟨here, induction inside⟩
  | call _ _ _ joined _ _ induction =>
      simp only [List.forall_mem_cons, List.forall_mem_append] at placed
      obtain ⟨here, -, inside, -⟩ := placed
      exact List.forall_mem_cons.mpr ⟨here, joined.placed_nodes inside induction⟩
  | @binary _ _ _ _ _ _ left _ _ _ _ inductionLeft inductionRight =>
      simp only [List.forall_mem_cons, List.forall_mem_append] at placed
      obtain ⟨before, -, after⟩ := placed
      have inLeft := inductionLeft before
      -- the operator stands where its left operand does
      refine List.forall_mem_cons.mpr ⟨inLeft left left.mem_nodes, ?_⟩
      exact List.forall_mem_append.mpr ⟨inLeft, inductionRight after⟩
  | tighter _ induction => exact induction placed

theorem Introduced.placed {literal : String} {tokens : List Token} {value : Option Expr}
    (derived : Introduced literal IsExpr tokens value)
    (placed : ∀ token ∈ tokens, places token.offset) :
    ∀ node ∈ Expr.nodesOfOption value, places node.offset := by
  cases derived with
  | none => exact List.forall_mem_nil _
  | some _ derived => exact derived.placed (List.forall_mem_cons.mp placed).2

mutual

theorem IsStmt.placed {tokens : List Token} {stmt : Stmt} :
    IsStmt tokens stmt → (∀ token ∈ tokens, places token.offset) →
      ∀ node ∈ stmt.nodes, places node.offset
  | .declaration _ _ _ value _ _, placed => by
      simp only [List.forall_mem_cons, List.forall_mem_append] at placed
      obtain ⟨-, -, -, inValue, -⟩ := placed
      exact value.placed inValue
  | .switch _ condition cases _ body _ whole, placed => by
      simp only [List.forall_mem_cons, List.forall_mem_append] at placed
      obtain ⟨-, inCondition, inCases, -, inBody, -⟩ := placed
      subst whole
      rw [Stmt.nodes, nodesOfList_append]
      simp only [Case.nodesOfList, Case.nodes, Expr.nodesOfOption, List.nil_append,
        List.append_nil, List.forall_mem_append]
      exact ⟨condition.placed inCondition, cases.placed inCases, body.placed inBody⟩
  | .branch _ condition _ thenBlock _, placed => by
      simp only [List.forall_mem_cons, List.forall_mem_append] at placed
      obtain ⟨-, inCondition, -, inThen, -⟩ := placed
      simp only [Stmt.nodes, Stmt.nodesOfList, List.append_nil, List.forall_mem_append]
      exact ⟨condition.placed inCondition, thenBlock.placed inThen⟩
  | .branchElse _ condition _ thenBlock _ elseBlock _, placed => by
      simp only [List.forall_mem_cons, List.forall_mem_append] at placed
      obtain ⟨-, inCondition, -, inThen, -, inElse, -⟩ := placed
      simp only [Stmt.nodes, List.forall_mem_append]
      exact ⟨condition.placed inCondition, thenBlock.placed inThen, elseBlock.placed inElse⟩
  | .loop _ condition _ body _, placed => by
      simp only [List.forall_mem_cons, List.forall_mem_append] at placed
      obtain ⟨-, inCondition, -, inBody, -⟩ := placed
      exact List.forall_mem_append.mpr ⟨condition.placed inCondition, body.placed inBody⟩
  | .result _ value _, placed => by
      simp only [List.forall_mem_cons, List.forall_mem_append] at placed
      exact value.placed placed.2.1
  | .expression _ value _, placed => value.placed (List.forall_mem_append.mp placed).1
  | .assignment _ receiver _ value _, placed => by
      simp only [List.forall_mem_cons, List.forall_mem_append] at placed
      obtain ⟨inReceiver, -, inValue, -⟩ := placed
      exact List.forall_mem_append.mpr ⟨receiver.placed inReceiver, value.placed inValue⟩

theorem IsBlock.placed {closers : List String} {tokens : List Token} {stmts : List Stmt} :
    IsBlock closers tokens stmts → (∀ token ∈ tokens, places token.offset) →
      ∀ node ∈ Stmt.nodesOfList stmts, places node.offset
  | .nil, _ => List.forall_mem_nil _
  | .cons _ first later, placed => by
      obtain ⟨inFirst, inLater⟩ := List.forall_mem_append.mp placed
      exact List.forall_mem_append.mpr ⟨first.placed inFirst, later.placed inLater⟩

theorem IsCases.placed {tokens : List Token} {cases : List Case} :
    IsCases tokens cases → (∀ token ∈ tokens, places token.offset) →
      ∀ node ∈ Case.nodesOfList cases, places node.offset
  | .nil, _ => List.forall_mem_nil _
  | .cons _ value _ body later, placed => by
      simp only [List.forall_mem_cons, List.forall_mem_append] at placed
      obtain ⟨-, inValue, -, inBody, inLater⟩ := placed
      simp only [Case.nodesOfList, Case.nodes, Expr.nodesOfOption, List.forall_mem_append]
      exact ⟨⟨value.placed inValue, body.placed inBody⟩, later.placed inLater⟩

end

theorem IsGlobal.placed {tokens : List Token} {item : Global} (derived : IsGlobal tokens item)
    (placed : ∀ token ∈ tokens, places token.offset) :
    places item.offset ∧ ∀ node ∈ Expr.nodesOfOption item.value, places node.offset := by
  cases derived with
  | list _ _ _ _ elements _ _ _ =>
      simp only [List.forall_mem_cons, List.forall_mem_append] at placed
      obtain ⟨here, -, -, opening, inside, -⟩ := placed
      obtain ⟨parts, derived, joined, rfl⟩ := elements
      have inElements := joined.placed_nodes inside fun part member => (derived part member).placed
      exact ⟨here, List.forall_mem_cons.mpr ⟨opening, inElements⟩⟩
  | mutable _ _ value _ =>
      simp only [List.forall_mem_cons, List.forall_mem_append] at placed
      obtain ⟨here, -, inValue, -⟩ := placed
      exact ⟨here, value.placed inValue⟩
  | immutable _ _ _ value _ =>
      simp only [List.forall_mem_cons, List.forall_mem_append] at placed
      obtain ⟨here, -, -, inValue, -⟩ := placed
      exact ⟨here, value.placed inValue⟩

theorem IsFunction.placed {tokens : List Token} {item : Function}
    (derived : IsFunction tokens item) (placed : ∀ token ∈ tokens, places token.offset) :
    places item.offset ∧ ∀ node ∈ Stmt.nodesOfList item.body, places node.offset := by
  cases derived with
  | mk _ _ _ _ _ _ _ _ body _ =>
      simp only [List.forall_mem_cons, List.forall_mem_append] at placed
      obtain ⟨here, -, -, -, -, -, -, inBody, -⟩ := placed
      exact ⟨here, body.placed inBody⟩

theorem IsProgram.placed {tokens : List Token} {program : Program}
    (derived : IsProgram tokens program) (placed : ∀ token ∈ tokens, places token.offset) :
    program.Placed places := by
  induction derived with
  | nil => exact ⟨List.forall_mem_nil _, List.forall_mem_nil _, List.forall_mem_nil _⟩
  | global first _ induction =>
      obtain ⟨inFirst, inLater⟩ := List.forall_mem_append.mp placed
      obtain ⟨here, inValue⟩ := first.placed inFirst
      obtain ⟨nodes, globals, functions⟩ := induction inLater
      refine ⟨?_, List.forall_mem_cons.mpr ⟨here, globals⟩, functions⟩
      simp only [Program.nodes, List.flatMap_cons, List.forall_mem_append] at nodes ⊢
      exact ⟨⟨inValue, nodes.1⟩, nodes.2⟩
  | function first _ induction =>
      obtain ⟨inFirst, inLater⟩ := List.forall_mem_append.mp placed
      obtain ⟨here, inBody⟩ := first.placed inFirst
      obtain ⟨nodes, globals, functions⟩ := induction inLater
      refine ⟨?_, globals, List.forall_mem_cons.mpr ⟨here, functions⟩⟩
      simp only [Program.nodes, List.flatMap_cons, List.forall_mem_append] at nodes ⊢
      exact ⟨nodes.1, inBody, nodes.2⟩

end Grammar

theorem Program.ofText_eq_error {text : String} {problem : Problem} :
    Program.ofText text = .error problem ↔
      (∃ error, tokenize text = .error error ∧ problem = .lexical error) ∨
        ∃ tokens error, tokenize text = .ok tokens ∧ Program.ofTokens tokens = .error error ∧
          problem = .reading error := by
  unfold Program.ofText
  cases tokenize text with
  | error error => simp [eq_comm]
  | ok tokens =>
      cases outcome : Program.ofTokens tokens with
      | error error => simp [outcome, eq_comm]
      | ok program => simp [outcome]

theorem Program.placed_of_ofText {text : String} {program : Program}
    (read : Program.ofText text = .ok program) : program.Placed (StartsToken text) := by
  obtain ⟨tokens, scanned, readTokens⟩ := Program.ofText_eq_ok.mp read
  apply (Program.ofTokens_eq_ok.mp readTokens).placed
  exact fun token member => ⟨tokens, scanned, token, member, rfl⟩

/-- Reading points at a token or behind the last one. -/
theorem Program.starts_or_ends_of_ofTokens {text : String} {tokens : List Token}
    {error : ReadingError} (scanned : tokenize text = .ok tokens)
    (failed : Program.ofTokens tokens = .error error) :
    StartsToken text error.offset ∨ EndsLastToken text error.offset := by
  cases error with
  | invalidLiteral token =>
      refine absurd ?_ (Program.ofText_ne_invalidLiteral text token)
      exact Program.ofText_eq_error.mpr (.inr ⟨tokens, _, scanned, failed, rfl⟩)
  | unexpected what found =>
      obtain ⟨taken, later, rfl, -, -⟩ := Program.ofTokens_unexpected failed
      have member : found ∈ taken ++ found :: later := by simp
      exact .inl ⟨_, scanned, found, member, rfl⟩
  | unexpectedEnd what offset =>
      obtain ⟨-, rfl⟩ := Program.ofTokens_unexpectedEnd failed
      cases last : tokens.getLast? with
      | none =>
          -- without tokens there is nothing that could be missing
          rw [List.getLast?_eq_none_iff.mp last] at failed
          cases failed
      | some token =>
          have stop : token.stop = (TokenStream.ofList tokens).stop := by
            simp [TokenStream.ofList, last]
          exact .inr ⟨tokens, scanned, token, last, stop⟩

end Procedural
