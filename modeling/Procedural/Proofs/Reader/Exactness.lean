import Procedural.Proofs.Reader.Unambiguity
import Procedural.Proofs.Text.Numerals
import Procedural.Proofs.Token.Tokenization

/-!
# Readers and the grammar agree

A list of tokens is read as a program exactly if the grammar derives the program from
the whole list, and then it derives it in one way and derives no other.  In what is
read the operators are layered by their levels, and every literal has a value.
-/

namespace Procedural

open Grammar

namespace Expr

mutual

/-- An expression and all expressions inside it. -/
def nodes : Expr → List Expr
  | literal note value => [literal note value]
  | group note inner => group note inner :: inner.nodes
  | binary note op left right => binary note op left right :: (left.nodes ++ right.nodes)
  | access note name => [access note name]
  | element note name index => element note name index :: index.nodes
  | call note name arguments => call note name arguments :: nodesOfList arguments
  | list note elements => list note elements :: nodesOfList elements

def nodesOfList : List Expr → List Expr
  | [] => []
  | expr :: rest => expr.nodes ++ nodesOfList rest

end

theorem mem_nodesOfList {node : Expr} {exprs : List Expr} :
    node ∈ nodesOfList exprs ↔ ∃ expr ∈ exprs, node ∈ expr.nodes := by
  induction exprs with
  | nil => simp [nodesOfList]
  | cons expr rest induction => simp [nodesOfList, induction]

def nodesOfOption : Option Expr → List Expr
  | none => []
  | some expr => expr.nodes

/-- Beside an operator stand only operands that bind more tightly, or equally tightly on its
left. -/
def IsLayered : Expr → Prop
  | binary _ op left right =>
      (∀ inner, left.operator? = some inner → op.level.rank ≤ inner.level.rank) ∧
        ∀ inner, right.operator? = some inner → op.level.rank < inner.level.rank
  | _ => True

end Expr

mutual

/-- All expressions inside a statement. -/
def Stmt.nodes : Stmt → List Expr
  | .expression value => value.nodes
  | .declaration _ _ value => Expr.nodesOfOption value
  | .assignment receiver value => receiver.nodes ++ value.nodes
  | .branch condition thenBlock elseBlock =>
      condition.nodes ++ (Stmt.nodesOfList thenBlock ++ Stmt.nodesOfList elseBlock)
  | .switch condition cases => condition.nodes ++ Case.nodesOfList cases
  | .loop condition body => condition.nodes ++ Stmt.nodesOfList body
  | .result value => value.nodes

def Stmt.nodesOfList : List Stmt → List Expr
  | [] => []
  | stmt :: rest => stmt.nodes ++ Stmt.nodesOfList rest

def Case.nodes : Case → List Expr
  | .mk value body => Expr.nodesOfOption value ++ Stmt.nodesOfList body

def Case.nodesOfList : List Case → List Expr
  | [] => []
  | case :: rest => case.nodes ++ Case.nodesOfList rest

end

/-- All expressions inside a program. -/
def Program.nodes (program : Program) : List Expr :=
  program.globals.flatMap (fun item => Expr.nodesOfOption item.value) ++
    program.functions.flatMap (fun item => Stmt.nodesOfList item.body)

namespace Grammar

/-- The levels become tighter from one to the next. -/
def Tightening (levels : List Level) : Prop :=
  levels.Pairwise fun level tighter => level.rank < tighter.rank

theorem tightening_all : Tightening Level.all := by
  unfold Tightening
  decide

theorem Phrase.layered {levels : List Level} {tokens : List Token} {expr : Expr}
    (phrase : Phrase levels tokens expr) (tightening : Tightening levels) :
    ∀ node ∈ expr.nodes, node.IsLayered := by
  induction phrase with
  | literal => simp [Expr.nodes, Expr.IsLayered]
  | access => simp [Expr.nodes, Expr.IsLayered]
  | group _ _ _ induction =>
      exact List.forall_mem_cons.mpr ⟨trivial, induction tightening_all⟩
  | element _ _ _ _ induction =>
      exact List.forall_mem_cons.mpr ⟨trivial, induction tightening_all⟩
  | call _ _ _ _ _ _ induction =>
      refine List.forall_mem_cons.mpr ⟨trivial, ?_⟩
      intro node member
      obtain ⟨argument, isArgument, member⟩ := Expr.mem_nodesOfList.mp member
      obtain ⟨part, isPart, rfl⟩ := List.mem_map.mp isArgument
      exact induction part isPart tightening_all node member
  | binary left spelled right inductionLeft inductionRight =>
      obtain ⟨looser, tighterTightening⟩ := List.pairwise_cons.mp tightening
      have level := Token.level_of_operatorAt spelled
      refine List.forall_mem_cons.mpr ⟨⟨?_, ?_⟩, ?_⟩
      · intro inner isBinary
        rcases List.mem_cons.mp (left.level_mem isBinary) with same | tighter
        · rw [level, same]
        · rw [level]
          exact Nat.le_of_lt (looser _ tighter)
      · intro inner isBinary
        rw [level]
        exact looser _ (right.level_mem isBinary)
      · exact List.forall_mem_append.mpr
          ⟨inductionLeft tightening, inductionRight tighterTightening⟩
  | tighter _ induction => exact induction (List.pairwise_cons.mp tightening).2

theorem Introduced.layered {literal : String} {tokens : List Token} {value : Option Expr}
    (derived : Introduced literal IsExpr tokens value) :
    ∀ node ∈ Expr.nodesOfOption value, node.IsLayered := by
  cases derived with
  | none => simp [Expr.nodesOfOption]
  | some _ derived => exact derived.layered tightening_all

theorem nodesOfList_append (front back : List Case) :
    Case.nodesOfList (front ++ back) = Case.nodesOfList front ++ Case.nodesOfList back := by
  induction front with
  | nil => rfl
  | cons case front induction => simp [Case.nodesOfList, induction]

mutual

theorem IsStmt.layered {tokens : List Token} {stmt : Stmt} :
    IsStmt tokens stmt → ∀ node ∈ stmt.nodes, node.IsLayered
  | .declaration _ _ _ value _ _ => value.layered
  | .switch _ condition cases _ body _ whole => by
      subst whole
      rw [Stmt.nodes, nodesOfList_append]
      simp only [Case.nodesOfList, Case.nodes, Expr.nodesOfOption, List.nil_append,
        List.append_nil, List.forall_mem_append]
      exact ⟨condition.layered tightening_all, cases.layered, body.layered⟩
  | .branch _ condition _ thenBlock _ => by
      simp only [Stmt.nodes, Stmt.nodesOfList, List.append_nil, List.forall_mem_append]
      exact ⟨condition.layered tightening_all, thenBlock.layered⟩
  | .branchElse _ condition _ thenBlock _ elseBlock _ => by
      simp only [Stmt.nodes, List.forall_mem_append]
      exact ⟨condition.layered tightening_all, thenBlock.layered, elseBlock.layered⟩
  | .loop _ condition _ body _ =>
      List.forall_mem_append.mpr ⟨condition.layered tightening_all, body.layered⟩
  | .result _ value _ => value.layered tightening_all
  | .expression _ value _ => value.layered tightening_all
  | .assignment _ receiver _ value _ =>
      List.forall_mem_append.mpr ⟨receiver.layered tightening_all, value.layered tightening_all⟩

theorem IsBlock.layered {closers : List String} {tokens : List Token} {stmts : List Stmt} :
    IsBlock closers tokens stmts → ∀ node ∈ Stmt.nodesOfList stmts, node.IsLayered
  | .nil => by simp [Stmt.nodesOfList]
  | .cons _ first later => List.forall_mem_append.mpr ⟨first.layered, later.layered⟩

theorem IsCases.layered {tokens : List Token} {cases : List Case} :
    IsCases tokens cases → ∀ node ∈ Case.nodesOfList cases, node.IsLayered
  | .nil => by simp [Case.nodesOfList]
  | .cons _ value _ body later => by
      simp only [Case.nodesOfList, Case.nodes, Expr.nodesOfOption, List.forall_mem_append]
      exact ⟨⟨value.layered tightening_all, body.layered⟩, later.layered⟩

end

theorem IsGlobal.layered {tokens : List Token} {item : Global} (derived : IsGlobal tokens item) :
    ∀ node ∈ Expr.nodesOfOption item.value, node.IsLayered := by
  cases derived with
  | list _ _ _ _ elements _ _ _ =>
      obtain ⟨parts, elements, _, rfl⟩ := elements
      refine List.forall_mem_cons.mpr ⟨trivial, ?_⟩
      intro node member
      obtain ⟨element, isElement, member⟩ := Expr.mem_nodesOfList.mp member
      obtain ⟨part, isPart, rfl⟩ := List.mem_map.mp isElement
      exact (elements part isPart).layered tightening_all node member
  | mutable _ _ value _ => exact value.layered
  | immutable _ _ _ value _ => exact value.layered tightening_all

theorem IsFunction.layered {tokens : List Token} {item : Function}
    (derived : IsFunction tokens item) : ∀ node ∈ Stmt.nodesOfList item.body, node.IsLayered := by
  cases derived with
  | mk _ _ _ _ _ _ _ _ body _ => exact body.layered

/-- Every operator of a program stands in the layer of its level. -/
theorem IsProgram.layered {tokens : List Token} {program : Program}
    (derived : IsProgram tokens program) : ∀ node ∈ program.nodes, node.IsLayered := by
  induction derived with
  | nil => simp [Program.nodes]
  | global first _ induction =>
      simp only [Program.nodes, List.flatMap_cons, List.forall_mem_append] at induction ⊢
      exact ⟨⟨first.layered, induction.1⟩, induction.2⟩
  | function first _ induction =>
      simp only [Program.nodes, List.flatMap_cons, List.forall_mem_append] at induction ⊢
      exact ⟨induction.1, first.layered, induction.2⟩

end Grammar

namespace Grammar

theorem IsProgram.eq_empty {tokens : List Token} {program : Program}
    (derived : IsProgram tokens program) (none : tokens = []) : program = ⟨[], []⟩ := by
  cases derived with
  | nil => rfl
  | global first _ =>
      exact absurd (List.append_eq_nil_iff.mp none).1 (Reader.IsGlobal.nonempty first)
  | function first _ =>
      cases first
      simp at none

end Grammar

namespace Reader

/-- A definition has at least one token. -/
theorem length_lt_of_definition {budget : Nat} {tokens rest : List Token} {found : Definition}
    (read : definition budget tokens = .ok found rest) : rest.length < tokens.length := by
  obtain ⟨taken, rfl, derived⟩ := sound_definition .nil read
  have taken_ne : taken ≠ [] := by
    intro none
    have same := derived.eq_empty (by simp [none])
    cases found <;> simp [Definition.before] at same
  have positive := List.length_pos_iff.mpr taken_ne
  rw [List.length_append]
  omega

/-- Where a program is read, nothing is left. -/
theorem rest_of_program (budget : Nat) : ∀ {tokens rest : List Token} {found : Program},
    tokens.length ≤ budget → program budget tokens = .ok found rest → rest = [] := by
  induction budget with
  | zero =>
      intro tokens rest found enough read
      obtain ⟨rfl, rfl⟩ := pure_eq_ok.mp read
      simpa using enough
  | succ budget induction =>
      intro tokens rest found enough read
      unfold program at read
      split at read
      · cases read
        rfl
      next token tail =>
        obtain ⟨first, middle, readFirst, readRest⟩ := bind_eq_ok.mp read
        obtain ⟨others, rest', readOthers, finished⟩ := bind_eq_ok.mp readRest
        obtain ⟨rfl, rfl⟩ := pure_eq_ok.mp finished
        have shorter := length_lt_of_definition readFirst
        exact induction (by omega) readOthers

end Reader

theorem Program.ofTokens_eq_ok {tokens : List Token} {program : Program} :
    Program.ofTokens tokens = .ok program ↔ IsProgram tokens program := by
  refine ⟨fun read => ?_, Program.ofTokens_of_isProgram⟩
  unfold Program.ofTokens TokenStream.readProgram at read
  split at read
  next found rest readProgram =>
    cases read
    obtain ⟨taken, split, derived⟩ := Reader.sound_program _ _ _ _ readProgram
    obtain rfl := Reader.rest_of_program _ (Nat.le_refl _) readProgram
    rw [List.append_nil] at split
    subst split
    exact derived
  · cases read

theorem Scan.IsCharacterBody.decode {body : List Char} (isBody : IsCharacterBody body) :
    ∃ c, Quoted.decode body = [c] := by
  cases isBody with
  | @plain c _ notBackslash _ =>
      refine ⟨c, ?_⟩
      rw [Quoted.decode]
      · rfl
      · intro d rest equal
        exact absurd equal notBackslash
  | @escape c _ => exact ⟨Quoted.escaped c, rfl⟩

/-- A token that is read as a literal denotes a value. -/
theorem Token.IsLexical.denotes {token : Token} (lexical : token.IsLexical)
    (isLiteral : token.isLiteral = true) : ∃ value, token.scalar? = some value := by
  unfold Token.IsLexical at lexical
  unfold Token.isLiteral at isLiteral
  unfold Token.scalar?
  generalize token.literal.toList = cs at lexical
  cases kind : token.kind with
  | integer =>
      rw [kind] at lexical
      cases lexical with
      | integer isSign isWhole =>
          simp [Numeral.integer?_eq isSign isWhole.nonempty isWhole.digits]
  | decimal =>
      rw [kind] at lexical
      cases lexical with
      | decimal isSign isWhole isFraction =>
          simp [Decimal.ofNumeral?_eq isSign isWhole isFraction]
  | character =>
      rw [kind] at lexical
      cases lexical with
      | @character body isBody =>
          obtain ⟨c, decoded⟩ := isBody.decode
          have unquoted : Quoted.unquote ('\'' :: (body ++ ['\''])) = body := by
            simp [Quoted.unquote]
          simp [unquoted, decoded, Token.singleCharacter?]
  | string => exact ⟨_, rfl⟩
  | identifier =>
      rw [kind] at isLiteral
      simp only [Bool.or_eq_true, beq_iff_eq] at isLiteral
      rcases isLiteral with (isNil | isTrue) | isFalse
      · exact ⟨_, if_pos isNil⟩
      · exact ⟨.boolean true, by simp [isTrue]⟩
      · exact ⟨.boolean false, by simp [isFalse]⟩
  | operator =>
      rw [kind] at isLiteral
      cases isLiteral

/-- All derivations from one list of tokens, of whatever program, coincide. -/
theorem subsingleton_programTree (tokens : List Token) :
    Subsingleton (Σ program, ProgramTree tokens program) := by
  refine ⟨?_⟩
  rintro ⟨program, tree⟩ ⟨program', tree'⟩
  have read := Program.ofTokens_of_isProgram (nonempty_programTree.mp ⟨tree⟩)
  have read' := Program.ofTokens_of_isProgram (nonempty_programTree.mp ⟨tree'⟩)
  -- Trees of different programs cannot be compared, but the reader finds only one program.
  obtain rfl : program = program' := Except.ok.inj (read.symm.trans read')
  rw [eq_of_heq (tree.unique tree' rfl rfl)]

/-- The tokens of a text are read as a program exactly if the program has a derivation from all
of them, no other derivation exists, no literal among them is without a value, and the program
has its operators in layers. -/
theorem Program.ofTokens_exact {text : String} {tokens : List Token}
    (scanned : tokenize text = .ok tokens) :
    (∀ program, Program.ofTokens tokens = .ok program ↔
        Nonempty (ProgramTree tokens program)) ∧
      Subsingleton (Σ program, ProgramTree tokens program) ∧
      (∀ token ∈ tokens, token.isLiteral = true → ∃ value, token.scalar? = some value) ∧
      ∀ program, Program.ofTokens tokens = .ok program →
        ∀ node ∈ program.nodes, node.IsLayered := by
  refine ⟨?_, subsingleton_programTree tokens, ?_, ?_⟩
  · intro program
    exact Program.ofTokens_eq_ok.trans nonempty_programTree.symm
  · intro token member
    exact (isLexical_of_tokenize scanned token member).denotes
  · intro program read
    exact (Program.ofTokens_eq_ok.mp read).layered

/-- A difference of three has one derivation, although its names are keywords. -/
theorem Program.ofTokens_exact_difference :
    ∃ tokens program, tokenize "VAL END : IF = DO - ELSE - 2 * NIL ;" = .ok tokens ∧
      Program.ofTokens tokens = .ok program ∧ Nonempty (ProgramTree tokens program) ∧
      (∀ other, Nonempty (ProgramTree tokens other) → other = program) ∧
      ∀ node ∈ program.nodes, node.IsLayered := by
  have accepted : ((tokenize "VAL END : IF = DO - ELSE - 2 * NIL ;").toOption.bind
      fun tokens => (Program.ofTokens tokens).toOption).isSome = true := by
    decide +kernel
  cases scanned : tokenize "VAL END : IF = DO - ELSE - 2 * NIL ;" with
  | error error =>
      rw [scanned] at accepted
      cases accepted
  | ok tokens =>
      rw [scanned] at accepted
      cases read : Program.ofTokens tokens with
      | error error =>
          simp [Except.toOption, read] at accepted
      | ok program =>
          obtain ⟨exact, _, _, layered⟩ := Program.ofTokens_exact scanned
          refine ⟨tokens, program, rfl, read, (exact program).mp read, ?_, layered program read⟩
          intro other tree
          exact Except.ok.inj (((exact other).mpr tree).symm.trans read)

end Procedural
