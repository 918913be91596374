import Procedural.Proofs.Reader.Soundness

/-!
# Readers accept the grammar

Tokens that derive a tree are read as that tree, whatever follows them as long as it
could not extend the last expression.  Budgets do not matter if they cover all tokens.
-/

namespace Procedural

open Grammar

/-- The spellings that can stand behind an expression and do not extend it. -/
def punctuation : List String :=
  [";", ")", "]", ",", "=", "DO", ":", "CASE", "DEFAULT"]

/-- Nothing, or a token that does not extend an expression at some levels. -/
def Stops (levels : List Level) (rest : List Token) : Prop :=
  ∀ token, rest.head? = some token → token.literal ≠ "(" ∧ token.literal ≠ "[" ∧
    ∀ level ∈ levels, token.operatorAt? level = none

theorem stops_punctuation {token : Token} (spelled : token.literal ∈ punctuation)
    (levels : List Level) (rest : List Token) : Stops levels (token :: rest) := by
  have all : ∀ word ∈ punctuation, word ≠ "(" ∧ word ≠ "[" ∧ BinaryOp.ofSymbol? word = none := by
    decide
  intro first head
  cases head
  obtain ⟨notParenthesis, notBracket, notOperator⟩ := all token.literal spelled
  refine ⟨notParenthesis, notBracket, ?_⟩
  intro level _
  simp [Token.operatorAt?, notOperator]

theorem stops_operator {token : Token} {level : Level} {op : BinaryOp}
    (spelled : token.operatorAt? level = some op) {tighter : List Level}
    (notTighter : level ∉ tighter) (rest : List Token) : Stops tighter (token :: rest) := by
  have all : ∀ op, BinaryOp.symbol op ≠ "(" ∧ BinaryOp.symbol op ≠ "[" := by
    intro op
    cases op <;> decide
  unfold Token.operatorAt? at spelled
  split at spelled
  next isOperator =>
    obtain ⟨found, sameLevel⟩ := Option.filter_eq_some_iff.mp spelled
    have written : op.symbol = token.literal := by
      simpa using List.find?_some found
    intro first head
    cases head
    refine ⟨?_, ?_, ?_⟩
    · rw [← written]
      exact (all op).1
    · rw [← written]
      exact (all op).2
    · intro other member
      have different : op.level ≠ other := by
        rintro rfl
        rw [beq_iff_eq] at sameLevel
        exact notTighter (sameLevel ▸ member)
      simp [Token.operatorAt?, isOperator, found, Option.filter, different]
  · cases spelled

theorem Stops.tighter {level : Level} {tighter : List Level} {rest : List Token}
    (stops : Stops (level :: tighter) rest) : Stops tighter rest := by
  intro token head
  obtain ⟨notParenthesis, notBracket, notOperator⟩ := stops token head
  exact ⟨notParenthesis, notBracket, fun other member =>
    notOperator other (List.mem_cons_of_mem level member)⟩

theorem Stops.tail {levels : List Level} {rest : List Token} (stops : Stops levels rest) :
    Stops levels.tail rest := by
  cases levels with
  | nil => exact stops
  | cons level tighter => exact stops.tighter

theorem startsWithNone_append {words : List String} {tokens rest : List Token}
    (different : StartsWithNone words tokens) (nonempty : tokens ≠ []) :
    StartsWithNone words (tokens ++ rest) := by
  obtain ⟨first, tokens, rfl⟩ := List.exists_cons_of_ne_nil nonempty
  exact different

namespace Reader

variable {α : Type}

theorem complete_symbol {literal context : String} {token : Token} {rest : List Token}
    (spelled : token.literal = literal) :
    symbol literal context (token :: rest) = .ok token rest :=
  symbol_eq_ok.mpr ⟨rfl, spelled⟩

theorem complete_bind {β : Type} {reader : Reader α} {next : α → Reader β} {value : α}
    {result : β} {tokens middle rest : List Token} (read : reader tokens = .ok value middle)
    (readNext : next value middle = .ok result rest) :
    (reader >>= next) tokens = .ok result rest :=
  (bind_of_ok read).trans readNext

theorem complete_accept {literal : String} {yes no : Reader α} {result : α} {token : Token}
    {tokens rest : List Token} (spelled : token.literal = literal)
    (read : yes tokens = .ok result rest) :
    (do if ← accept literal then yes else no) (token :: tokens) = .ok result rest :=
  ifAccept_eq_ok.mpr (.inl ⟨token, tokens, rfl, spelled, read⟩)

theorem complete_decline {literal : String} {yes no : Reader α} {result : α}
    {tokens rest : List Token} (different : StartsWithNone [literal] tokens)
    (read : no tokens = .ok result rest) :
    (do if ← accept literal then yes else no) tokens = .ok result rest :=
  ifAccept_eq_ok.mpr (.inr ⟨fun token head => by simpa using different token head, read⟩)

/-- Of at most some number of tokens, the reader takes any phrase that is followed suitably,
and returns the value of the phrase. -/
def Complete (reader : Reader α) (phrase : List Token → α → Prop) (follows : List Token → Prop)
    (size : Nat) : Prop :=
  ∀ taken value rest, phrase taken value → (taken ++ rest).length ≤ size → follows rest →
    reader (taken ++ rest) = .ok value rest

section Items

variable {item : Reader α} {phrase : List Token → α → Prop} {follows : List Token → Prop}
variable {size budget : Nat}

theorem Complete.introduced (complete : Complete item phrase follows size) {literal : String} :
    Complete (introduced literal item) (Introduced literal phrase)
      (fun rest => follows rest ∧ StartsWithNone [literal] rest) size := by
  rintro taken value rest derived fits ⟨ended, different⟩
  cases derived with
  | none =>
      refine introduced_eq_ok.mpr (.inr ⟨?_, rfl, rfl⟩)
      intro token head
      simpa using different token head
  | @some token tokens value spelled derived =>
      rw [List.cons_append, List.length_cons] at fits
      exact introduced_eq_ok.mpr
        (.inl ⟨token, _, value, rfl, spelled, complete _ _ _ derived (by omega) ended, rfl⟩)

variable (complete : Complete item phrase follows size)
variable (comma : ∀ token rest, token.literal = "," → follows (token :: rest))

include complete comma

theorem Complete.furtherItems {items : List (List Token)} {taken : List Token}
    (joined : JoinedFurther items taken) :
    ∀ {parts : List (List Token × α)}, parts.map Prod.fst = items →
      (∀ part ∈ parts, phrase part.1 part.2) →
      ∀ budget rest, (taken ++ rest).length ≤ size → (taken ++ rest).length ≤ budget →
        follows rest → StartsWithNone [","] rest →
        furtherItems item budget (taken ++ rest) = .ok (parts.map Prod.snd) rest := by
  induction joined with
  | nil =>
      intro parts fits _ budget rest _ _ _ ends
      obtain rfl : parts = [] := by simpa using fits
      cases budget with
      | zero => rfl
      | succ budget => exact complete_decline ends rfl
  | @cons separator first tokens items spelled joined induction =>
      intro parts fits derived budget rest inSize inBudget ended ends
      match parts, fits with
      | (itemTokens, value) :: parts, fits =>
          simp only [List.map_cons, List.cons.injEq] at fits
          obtain ⟨rfl, fitsLater⟩ := fits
          obtain ⟨derivedFirst, derivedLater⟩ := List.forall_mem_cons.mp derived
          simp only [List.cons_append, List.length_cons, List.length_append] at inSize inBudget
          have endedFirst : follows (tokens ++ rest) := by
            cases joined with
            | nil => exact ended
            | cons spelled' _ => exact comma _ _ spelled'
          have readFirst := complete itemTokens value (tokens ++ rest) derivedFirst
            (by simp only [List.length_append]; omega) endedFirst
          obtain ⟨budget, rfl⟩ : ∃ fewer, budget = fewer + 1 := ⟨budget - 1, by omega⟩
          have readLater := induction fitsLater derivedLater budget rest
            (by simp only [List.length_append]; omega)
            (by simp only [List.length_append]; omega) ended ends
          rw [List.cons_append, List.append_assoc]
          exact complete_accept spelled (complete_bind readFirst (complete_bind readLater rfl))

theorem Complete.items (enough : size ≤ budget) :
    Complete (items item budget) (fun taken values => Items phrase taken values ∧ values ≠ [])
      (fun rest => follows rest ∧ StartsWithNone [","] rest) size := by
  rintro taken values rest ⟨⟨parts, derived, joined, rfl⟩, nonempty⟩ fits ⟨ended, ends⟩
  match parts, joined with
  | (itemTokens, value) :: parts, @Joined.cons _ tokens _ joined =>
      obtain ⟨derivedFirst, derivedLater⟩ := List.forall_mem_cons.mp derived
      rw [List.append_assoc] at fits ⊢
      have endedFirst : follows (tokens ++ rest) := by
        generalize parts.map Prod.fst = items at joined
        cases joined with
        | nil => exact ended
        | cons spelled _ => exact comma _ _ spelled
      have readFirst := complete itemTokens value (tokens ++ rest) derivedFirst fits endedFirst
      rw [List.length_append] at fits
      have readLater := complete.furtherItems comma joined rfl derivedLater budget rest
        (by omega) (by omega) ended ends
      exact complete_bind readFirst (complete_bind readLater rfl)

theorem Complete.itemsUnless {closing : String}
    (nonempty : ∀ taken value, phrase taken value → taken ≠ []) (enough : size ≤ budget) :
    Complete (itemsUnless closing item budget)
      (fun taken values => Items phrase taken values ∧ StartsWithNone [closing] taken)
      (fun rest => follows rest ∧ StartsWithNone [","] rest ∧
        ∃ token, rest.head? = some token ∧ token.literal = closing) size := by
  rintro taken values rest ⟨derived, starts⟩ fits ⟨ended, ends, token, head, closed⟩
  obtain ⟨parts, all, joined, rfl⟩ := derived
  match parts, joined with
  | [], .nil => exact ifSees_eq_ok.mpr (.inl ⟨token, head, closed, rfl⟩)
  | first :: parts, joined =>
      refine ifSees_eq_ok.mpr (.inr ⟨?_, ?_⟩)
      · intro token head
        have taken_ne : taken ≠ [] := by
          obtain @⟨_, tokens, _, _⟩ := joined
          have first_ne := nonempty _ _ (List.forall_mem_cons.mp all).1
          simp [first_ne]
        obtain ⟨initial, others, rfl⟩ := List.exists_cons_of_ne_nil taken_ne
        simpa using starts token head
      · exact complete.items comma enough _ _ _ ⟨⟨first :: parts, all, joined, rfl⟩, by simp⟩ fits
          ⟨ended, ends⟩

end Items

/-- The reader is back where it reads operators of the level after an operand of the level. -/
def Resumes (budget : Nat) : List Level → List Token → Expr → List Token → Prop
  | [], taken, expr, rest =>
      primary (expression budget) (budget + 1) (taken ++ rest) = .ok expr rest
  | level :: tighter, taken, expr, rest =>
      ∃ fuel, rest.length ≤ fuel ∧
        tier (primary (expression budget) (budget + 1)) (budget + 1) (level :: tighter)
            (taken ++ rest) =
          furtherOperands level
            (tier (primary (expression budget) (budget + 1)) (budget + 1) tighter)
            fuel expr rest

theorem furtherOperands_stops {level : Level} {operand : Reader Expr} {expr : Expr}
    {rest : List Token}
    (stops : ∀ token, rest.head? = some token → token.operatorAt? level = none) (fuel : Nat) :
    furtherOperands level operand fuel expr rest = .ok expr rest := by
  cases fuel with
  | zero => rfl
  | succ fuel =>
      refine bind_eq_ok.mpr ⟨none, rest, ?_, rfl⟩
      cases rest with
      | nil => rfl
      | cons token rest => simp only [operator, stops token rfl]

theorem Resumes.settle {budget : Nat} {levels : List Level} {taken rest : List Token}
    {expr : Expr} (resumes : Resumes budget levels taken expr rest)
    (stops : Stops levels rest) :
    tier (primary (expression budget) (budget + 1)) (budget + 1) levels (taken ++ rest) =
      .ok expr rest := by
  cases levels with
  | nil => exact resumes
  | cons level tighter =>
      obtain ⟨fuel, _, equal⟩ := resumes
      rw [equal]
      exact furtherOperands_stops
        (fun token head => (stops token head).2.2 level List.mem_cons_self) fuel

theorem complete_primary_name {budget : Nat} {name : Token} {tokens rest : List Token}
    {expr : Expr} (isName : name.IsName)
    (read : afterName (expression budget) (budget + 1) name.offset name.literal tokens =
      .ok expr rest) :
    primary (expression budget) (budget + 1) (name :: tokens) = .ok expr rest := by
  simp only [primary, isName.notLiteral, Bool.false_eq_true, if_false, if_neg isName.notOpening,
    if_pos isName.identifier]
  exact read

/-- However many tokens follow, the reader resumes after the phrase. -/
def Resumable (levels : List Level) (taken : List Token) (expr : Expr) : Prop :=
  ∀ budget rest, (taken ++ rest).length ≤ budget + 1 → Stops levels.tail rest →
    Resumes budget levels taken expr rest

/-- The reader for nested expressions takes those after which the reader resumes. -/
theorem complete_nested (budget : Nat) :
    Complete (expression budget)
      (fun taken expr => taken ≠ [] ∧ Resumable Level.all taken expr)
      (Stops Level.all) budget := by
  rintro taken expr rest ⟨nonempty, resumable⟩ fits stops
  have positive := List.length_pos_iff.mpr nonempty
  rw [List.length_append] at fits
  obtain ⟨budget, rfl⟩ : ∃ fewer, budget = fewer + 1 := ⟨budget - 1, by omega⟩
  exact (resumable budget rest (by rw [List.length_append]; omega) stops.tighter).settle stops

/-- Tokens of an expression of a layer are read as that expression. -/
theorem resumable_of_phrase {levels : List Level} {taken : List Token} {expr : Expr}
    (phrase : Phrase levels taken expr) (distinct : levels.Nodup) :
    Resumable levels taken expr := by
  have allDistinct : Level.all.Nodup := by decide
  induction phrase with
  | literal isLiteral denoted =>
      intro budget rest _ _
      simp only [Resumes, primary, List.cons_append, isLiteral, if_true, denoted, List.nil_append]
  | @group opening closing tokens inner isOpening derived closed induction =>
      intro budget rest fits stops
      have ends : Stops Level.all (closing :: rest) :=
        stops_punctuation (by simp [punctuation, closed]) _ _
      have readInner := complete_nested budget tokens inner (closing :: rest)
        ⟨derived.nonempty, induction allDistinct⟩ (by simp at fits ⊢; omega) ends
      have read : closeGroup (expression budget) opening.offset (tokens ++ closing :: rest) =
          .ok (.group (.at opening.offset) inner) rest :=
        complete_bind readInner (complete_bind (complete_symbol closed) rfl)
      simpa [Resumes, primary, isOpening.notLiteral, isOpening.literal] using read
  | @access name isName =>
      intro budget rest _ stops
      have noCall : StartsWithNone ["("] rest :=
        fun token head => by simpa using (stops token head).1
      have noIndex : ∀ token, rest.head? = some token → token.literal ≠ "[" :=
        fun token head => (stops token head).2.1
      exact complete_primary_name isName (complete_decline noCall
        (complete_bind (introduced_eq_ok.mpr (.inr ⟨noIndex, rfl, rfl⟩)) rfl))
  | @element name opening closing tokens index isName opened derived closed induction =>
      intro budget rest fits stops
      have ends : Stops Level.all (closing :: rest) :=
        stops_punctuation (by simp [punctuation, closed]) _ _
      have readIndex := complete_nested budget tokens index (closing :: rest)
        ⟨derived.nonempty, induction allDistinct⟩ (by simp at fits ⊢; omega) ends
      simp only [Resumes, List.cons_append, List.append_assoc]
      have noCall : StartsWithNone ["("] (opening :: (tokens ++ closing :: rest)) := by
        simp [StartsWithNone, opened]
      refine complete_primary_name isName (complete_decline noCall ?_)
      exact complete_bind (introduced_eq_ok.mpr
        (.inl ⟨opening, _, index, rfl, opened, readIndex, rfl⟩))
        (complete_bind (complete_symbol closed) rfl)
  | @call name opening closing tokens parts isName opened derived joined starts closed induction =>
      intro budget rest fits stops
      have ends : Stops Level.all (closing :: rest) :=
        stops_punctuation (by simp [punctuation, closed]) _ _
      have comma : ∀ token rest, token.literal = "," → Stops Level.all (token :: rest) :=
        fun token rest spelled => stops_punctuation (by simp [punctuation, spelled]) _ _
      have readArguments := (complete_nested budget).itemsUnless comma
        (fun _ _ derived => derived.1) (Nat.le_succ budget) tokens _ (closing :: rest)
        ⟨⟨parts, fun part member =>
          ⟨(derived part member).nonempty, induction part member allDistinct⟩, joined, rfl⟩, starts⟩
        (by simp at fits ⊢; omega) ⟨ends, by simp [StartsWithNone, closed], closing, rfl, closed⟩
      simp only [Resumes, List.cons_append, List.append_assoc]
      exact complete_primary_name isName (complete_accept opened
        (complete_bind readArguments (complete_bind (complete_symbol closed) rfl)))
  | @binary level tighter token op leftTokens rightTokens left right _ spelled _ inductionLeft
      inductionRight =>
      intro budget rest fits stops
      obtain ⟨notTighter, tighterDistinct⟩ := List.nodup_cons.mp distinct
      obtain ⟨fuel, enough, equal⟩ := inductionLeft distinct budget
        (token :: (rightTokens ++ rest)) (by simpa using fits)
        (stops_operator spelled notTighter _)
      have readRight := (inductionRight tighterDistinct budget rest
        (by simp at fits ⊢; omega) stops.tail).settle stops
      obtain ⟨fuel, rfl⟩ : ∃ fewer, fuel = fewer + 1 := ⟨fuel - 1, by simp at enough; omega⟩
      refine ⟨fuel, by simp at enough; omega, ?_⟩
      have readOperator : operator level (token :: (rightTokens ++ rest)) =
          .ok (some op) (rightTokens ++ rest) := by
        simp only [operator, spelled]
      rw [List.append_assoc, List.cons_append, equal]
      exact (bind_of_ok readOperator).trans (bind_of_ok readRight)
  | @tighter level tighter tokens expr derived induction =>
      intro budget rest fits stops
      have settled :=
        (induction (List.nodup_cons.mp distinct).2 budget rest fits stops.tail).settle stops
      exact ⟨budget + 1, by simp at fits; omega, bind_of_ok settled⟩

theorem complete_expression (budget : Nat) :
    Complete (expression budget) IsExpr (Stops Level.all) budget :=
  fun taken expr rest derived => complete_nested budget taken expr rest
    ⟨derived.nonempty, resumable_of_phrase derived (by decide)⟩

/-- A token that is a literal is an expression of its own. -/
theorem expression_literal {token : Token} {value : Scalar}
    (isLiteral : token.isLiteral = true) (denoted : token.scalar? = some value) :
    expression 1 [token] = .ok (.literal (.at token.offset) value) [] := by
  have phrase : IsExpr [token] (.literal (.at token.offset) value) :=
    .tighter (.tighter (.tighter (.tighter (.literal isLiteral denoted))))
  exact complete_expression 1 [token] _ [] phrase (Nat.le_refl 1) nofun

/-- Some token follows, and it has one of some spellings. -/
def StartsWithOne (words : List String) (tokens : List Token) : Prop :=
  ∃ token, tokens.head? = some token ∧ token.literal ∈ words

theorem startsWithOne_cons {words : List String} {token : Token} {rest : List Token}
    (spelled : token.literal ∈ words) : StartsWithOne words (token :: rest) :=
  ⟨token, rfl, spelled⟩

theorem IsStmt.nonempty {tokens : List Token} {stmt : Stmt} (derived : IsStmt tokens stmt) :
    tokens ≠ [] := by
  cases derived <;> simp

theorem Complete.block {statement : Reader Stmt} {size : Nat}
    (complete : Complete statement IsStmt (fun _ => True) size) (closers : List String) :
    ∀ budget taken stmts rest, IsBlock closers taken stmts → (taken ++ rest).length ≤ size →
      (taken ++ rest).length ≤ budget → StartsWithOne closers rest →
      block statement closers budget (taken ++ rest) = .ok stmts rest := by
  intro budget
  induction budget with
  | zero =>
      rintro taken stmts rest _ _ inBudget ⟨token, head, _⟩
      cases rest with
      | nil => cases head
      | cons _ _ => simp at inBudget
  | succ budget induction =>
      rintro taken stmts rest derived inSize inBudget ended
      cases derived with
      | nil =>
          obtain ⟨token, head, closes⟩ := ended
          cases rest with
          | nil => cases head
          | cons first rest =>
              cases head
              simp [Reader.block, closes]
      | @cons _ tokens later stmt stmts starts derived derivedLater =>
          obtain ⟨first, tokens, rfl⟩ := List.exists_cons_of_ne_nil (IsStmt.nonempty derived)
          have notCloser : closers.contains first.literal = false := by
            simpa using starts first rfl
          rw [List.append_assoc] at inSize inBudget ⊢
          have readStmt := complete _ stmt _ derived inSize trivial
          simp only [List.cons_append, List.length_cons, List.length_append] at inSize inBudget
          have readLater := induction later stmts rest derivedLater
            (by rw [List.length_append]; omega) (by rw [List.length_append]; omega) ended
          simp only [Reader.block, List.cons_append, notCloser, Bool.false_eq_true, if_false]
          exact complete_bind readStmt (complete_bind readLater rfl)

theorem Complete.cases {expression : Reader Expr} {body : Reader (List Stmt)} {size : Nat}
    (complete : Complete expression IsExpr (Stops Level.all) size)
    (completeBody : Complete body (IsBlock caseClosers) (StartsWithOne caseClosers) size) :
    ∀ budget taken found rest, IsCases taken found → (taken ++ rest).length ≤ size →
      (taken ++ rest).length ≤ budget → StartsWithOne ["DEFAULT"] rest →
      cases expression body budget (taken ++ rest) = .ok found rest := by
  intro budget
  induction budget with
  | zero =>
      rintro taken found rest _ _ inBudget ⟨token, head, _⟩
      cases rest with
      | nil => cases head
      | cons _ _ => simp at inBudget
  | succ budget induction =>
      rintro taken found rest derived inSize inBudget ended
      cases derived with
      | nil =>
          obtain ⟨token, head, spelled⟩ := ended
          refine complete_decline ?_ rfl
          intro first same
          rw [List.nil_append, head] at same
          cases same
          simp at spelled
          simp [spelled]
      | @cons keyword colon tokens bodyTokens later value body cases spelled derived colonSpelled
          derivedBody derivedLater =>
          simp only [List.cons_append, List.append_assoc, List.length_cons, List.length_append]
            at inSize inBudget ⊢
          have readValue := complete tokens value (colon :: (bodyTokens ++ (later ++ rest))) derived
            (by simp; omega) (stops_punctuation (by simp [punctuation, colonSpelled]) _ _)
          have endedBody : StartsWithOne caseClosers (later ++ rest) := by
            cases derivedLater with
            | nil =>
                obtain ⟨token, head, spelled⟩ := ended
                simp at spelled
                exact ⟨token, head, by simp [caseClosers, spelled]⟩
            | cons spelled => exact startsWithOne_cons (by simp [caseClosers, spelled])
          have readBody := completeBody bodyTokens body (later ++ rest) derivedBody
            (by simp; omega) endedBody
          have readLater := induction later cases rest derivedLater (by simp; omega)
            (by simp; omega) ended
          refine complete_accept spelled (complete_bind readValue ?_)
          refine complete_bind (complete_symbol colonSpelled) (complete_bind readBody ?_)
          exact complete_bind readLater rfl

theorem complete_identifier {context : String} {token : Token} {rest : List Token}
    (isIdentifier : token.kind = .identifier) :
    identifier context (token :: rest) = .ok token.literal rest :=
  identifier_eq_ok.mpr ⟨token, rfl, isIdentifier, rfl⟩

section Statements

variable {expression : Reader Expr} {body : Reader (List Stmt)} {size budget : Nat}
variable {tokens rest : List Token} {condition : Expr}

theorem stops_spelled {token : Token} {word : String} (spelled : token.literal = word)
    (rest : List Token) (known : word ∈ punctuation := by decide) :
    Stops Level.all (token :: rest) :=
  stops_punctuation (spelled ▸ known) _ _

variable (complete : Complete expression IsExpr (Stops Level.all) size)
variable (derived : IsExpr tokens condition)

include complete

theorem complete_declaration {name semicolon : Token} {typeTokens valueTokens : List Token}
    {typeName : Option String} {value : Option Expr} (isIdentifier : name.kind = .identifier)
    (derivedType : Introduced ":" IsIdentifier typeTokens typeName)
    (derivedValue : Introduced "=" IsExpr valueTokens value)
    (typed : (typeName.isNone && value.isNone) = false) (ended : semicolon.literal = ";")
    (fits : (typeTokens ++ (valueTokens ++ semicolon :: rest)).length ≤ size) :
    declaration expression (name :: (typeTokens ++ (valueTokens ++ semicolon :: rest))) =
      .ok (.declaration name.literal typeName value) rest := by
  have completeType : Complete (identifier s!"as type of '{name.literal}'") IsIdentifier
      (fun _ => True) size := by
    rintro taken found rest ⟨isIdentifier⟩ _ _
    exact complete_identifier isIdentifier
  have notType : StartsWithNone [":"] (valueTokens ++ semicolon :: rest) := by
    cases derivedValue with
    | none => simp [StartsWithNone, ended]
    | some spelled _ => simp [StartsWithNone, spelled]
  have readType := completeType.introduced _ _ _ derivedType fits ⟨trivial, notType⟩
  have readValue := complete.introduced _ _ (semicolon :: rest) derivedValue
    (by simp at fits ⊢; omega)
    ⟨stops_spelled ended rest, by simp [StartsWithNone, ended]⟩
  refine complete_bind (complete_identifier isIdentifier) (complete_bind readType ?_)
  refine complete_bind readValue ?_
  simp only [typed, Bool.false_eq_true, if_false]
  exact complete_bind (complete_symbol ended) rfl

include derived

theorem complete_switch {default closing : Token} {caseTokens bodyTokens : List Token}
    {found : List Case} {stmts : List Stmt}
    (completeBody : Complete body (IsBlock caseClosers) (StartsWithOne caseClosers) size)
    (derivedCases : IsCases caseTokens found) (defaultSpelled : default.literal = "DEFAULT")
    (derivedBody : IsBlock caseClosers bodyTokens stmts) (closed : closing.literal = "END")
    (fits : (tokens ++ (caseTokens ++ default :: (bodyTokens ++ closing :: rest))).length ≤ size) :
    switch expression body size
        (tokens ++ (caseTokens ++ default :: (bodyTokens ++ closing :: rest))) =
      .ok (.switch condition (found ++ [.mk none stmts])) rest := by
  have ends : Stops Level.all (caseTokens ++ default :: (bodyTokens ++ closing :: rest)) := by
    cases derivedCases with
    | nil => exact stops_spelled defaultSpelled _
    | cons spelled => exact stops_spelled spelled _
  have readCondition := complete tokens condition _ derived fits ends
  simp only [List.length_append, List.length_cons] at fits
  have readCases := complete.cases completeBody size caseTokens found
    (default :: (bodyTokens ++ closing :: rest)) derivedCases (by simp; omega) (by simp; omega)
    (startsWithOne_cons (by simp [defaultSpelled]))
  have readBody := completeBody bodyTokens stmts (closing :: rest) derivedBody (by simp; omega)
    (startsWithOne_cons (by simp [caseClosers, closed]))
  refine complete_bind readCondition (complete_bind readCases ?_)
  refine complete_bind (complete_symbol defaultSpelled) (complete_bind readBody ?_)
  exact complete_bind (complete_symbol closed) rfl

theorem complete_branch {opening closing : Token} {thenTokens elseTokens : List Token}
    {thenBlock : List Stmt} {elseBlock : Option (List Stmt)}
    (completeBody : Complete body (IsBlock blockClosers) (StartsWithOne blockClosers) size)
    (opened : opening.literal = "DO") (derivedThen : IsBlock blockClosers thenTokens thenBlock)
    (derivedElse : Introduced "ELSE" (IsBlock blockClosers) elseTokens elseBlock)
    (closed : closing.literal = "END")
    (fits : (tokens ++ opening :: (thenTokens ++ (elseTokens ++ closing :: rest))).length ≤
      size) :
    branch expression body
        (tokens ++ opening :: (thenTokens ++ (elseTokens ++ closing :: rest))) =
      .ok (.branch condition thenBlock (elseBlock.getD [])) rest := by
  have readCondition := complete tokens condition _ derived fits (stops_spelled opened _)
  simp only [List.length_append, List.length_cons] at fits
  have endedThen : StartsWithOne blockClosers (elseTokens ++ closing :: rest) := by
    cases derivedElse with
    | none => exact startsWithOne_cons (by simp [blockClosers, closed])
    | some spelled => exact startsWithOne_cons (by simp [blockClosers, spelled])
  have readThen := completeBody thenTokens thenBlock (elseTokens ++ closing :: rest) derivedThen
    (by simp; omega) endedThen
  have readElse := completeBody.introduced elseTokens elseBlock (closing :: rest) derivedElse
    (by simp; omega) ⟨startsWithOne_cons (by simp [blockClosers, closed]),
      by simp [StartsWithNone, closed]⟩
  refine complete_bind readCondition (complete_bind (complete_symbol opened) ?_)
  refine complete_bind readThen (complete_bind readElse ?_)
  exact complete_bind (complete_symbol closed) rfl

theorem complete_loop {opening closing : Token} {bodyTokens : List Token} {stmts : List Stmt}
    (completeBody : Complete body (IsBlock blockClosers) (StartsWithOne blockClosers) size)
    (opened : opening.literal = "DO") (derivedBody : IsBlock blockClosers bodyTokens stmts)
    (closed : closing.literal = "END")
    (fits : (tokens ++ opening :: (bodyTokens ++ closing :: rest)).length ≤ size) :
    loop expression body (tokens ++ opening :: (bodyTokens ++ closing :: rest)) =
      .ok (.loop condition stmts) rest := by
  have readCondition := complete tokens condition _ derived fits (stops_spelled opened _)
  simp only [List.length_append, List.length_cons] at fits
  have readBody := completeBody bodyTokens stmts (closing :: rest) derivedBody (by simp; omega)
    (startsWithOne_cons (by simp [blockClosers, closed]))
  refine complete_bind readCondition (complete_bind (complete_symbol opened) ?_)
  exact complete_bind readBody (complete_bind (complete_symbol closed) rfl)

theorem complete_result {semicolon : Token} (ended : semicolon.literal = ";")
    (fits : (tokens ++ semicolon :: rest).length ≤ size) :
    result expression (tokens ++ semicolon :: rest) = .ok (.result condition) rest :=
  complete_bind (complete tokens condition _ derived fits (stops_spelled ended _))
    (complete_bind (complete_symbol ended) rfl)

theorem complete_simple_expression {semicolon : Token} (ended : semicolon.literal = ";")
    (fits : (tokens ++ semicolon :: rest).length ≤ size) :
    simple expression (tokens ++ semicolon :: rest) = .ok (.expression condition) rest := by
  have readValue := complete tokens condition _ derived fits (stops_spelled ended _)
  have noValue : introduced "=" expression (semicolon :: rest) = .ok none (semicolon :: rest) :=
    complete_decline (by simp [StartsWithNone, ended]) rfl
  refine complete_bind readValue (complete_bind noValue ?_)
  exact complete_bind (complete_symbol ended) rfl

theorem complete_simple_assignment {equals semicolon : Token} {valueTokens : List Token}
    {value : Expr} (spelled : equals.literal = "=") (derivedValue : IsExpr valueTokens value)
    (ended : semicolon.literal = ";")
    (fits : (tokens ++ equals :: (valueTokens ++ semicolon :: rest)).length ≤ size) :
    simple expression (tokens ++ equals :: (valueTokens ++ semicolon :: rest)) =
      .ok (.assignment condition value) rest := by
  have readReceiver := complete tokens condition _ derived fits (stops_spelled spelled _)
  have readValue := complete valueTokens value (semicolon :: rest) derivedValue
    (by simp at fits ⊢; omega) (stops_spelled ended _)
  have introduced : introduced "=" expression (equals :: (valueTokens ++ semicolon :: rest)) =
      .ok (some value) (semicolon :: rest) :=
    complete_accept spelled (complete_bind readValue rfl)
  refine complete_bind readReceiver (complete_bind introduced ?_)
  exact complete_bind (complete_symbol ended) rfl

end Statements

theorem complete_simple {budget : Nat} {tokens rest : List Token} {stmt : Stmt}
    (different : StartsWithNone statementWords tokens)
    (read : simple (expression (budget + 1)) tokens = .ok stmt rest) :
    statement (budget + 1) tokens = .ok stmt rest := by
  have decline {word : String} (member : word ∈ statementWords) :
      StartsWithNone [word] tokens := by
    intro token head equal
    rw [List.mem_singleton] at equal
    exact different token head (equal ▸ member)
  refine complete_decline (decline (by decide)) (complete_decline (decline (by decide)) ?_)
  refine complete_decline (decline (by decide)) (complete_decline (decline (by decide)) ?_)
  exact complete_decline (decline (by decide)) read

/-- Phrases of statements are read as those statements, whatever follows. -/
theorem complete_statement (budget : Nat) :
    Complete (statement budget) IsStmt (fun _ => True) budget := by
  induction budget with
  | zero =>
      intro taken stmt rest derived fits _
      have positive := List.length_pos_iff.mpr (IsStmt.nonempty derived)
      rw [List.length_append] at fits
      omega
  | succ budget induction =>
      intro taken stmt rest derived fits _
      have complete := complete_expression budget
      have completeLonger := complete_expression (budget + 1)
      have completeBody (closers : List String) :
          Complete (block (statement budget) closers budget) (IsBlock closers)
            (StartsWithOne closers) budget :=
        fun taken stmts rest derived fits ended =>
          induction.block closers budget taken stmts rest derived fits fits ended
      cases derived with
      | declaration spelled isIdentifier derivedType derivedValue typed ended =>
          simp only [List.cons_append, List.append_assoc, List.length_cons, List.nil_append]
            at fits ⊢
          refine complete_accept spelled ?_
          exact complete_declaration complete isIdentifier derivedType derivedValue typed ended
            (by omega)
      | switch spelled derived derivedCases defaultSpelled derivedBody closed whole =>
          subst whole
          simp only [List.cons_append, List.append_assoc, List.length_cons, List.nil_append]
            at fits ⊢
          refine complete_decline (by simp [StartsWithNone, spelled]) (complete_accept spelled ?_)
          exact complete_switch complete derived (completeBody _) derivedCases defaultSpelled
            derivedBody closed (by omega)
      | branch spelled derived opened derivedThen closed =>
          simp only [List.cons_append, List.append_assoc, List.length_cons, List.nil_append]
            at fits ⊢
          refine complete_decline (by simp [StartsWithNone, spelled]) ?_
          refine complete_decline (by simp [StartsWithNone, spelled]) (complete_accept spelled ?_)
          exact complete_branch complete derived (completeBody _) opened derivedThen .none closed
            (by simpa using Nat.le_of_succ_le_succ fits)
      | branchElse spelled derived opened derivedThen middleSpelled derivedElse closed =>
          simp only [List.cons_append, List.append_assoc, List.length_cons, List.nil_append]
            at fits ⊢
          refine complete_decline (by simp [StartsWithNone, spelled]) ?_
          refine complete_decline (by simp [StartsWithNone, spelled]) (complete_accept spelled ?_)
          exact complete_branch complete derived (completeBody _) opened derivedThen
            (.some middleSpelled derivedElse) closed (by simpa using Nat.le_of_succ_le_succ fits)
      | loop spelled derived opened derivedBody closed =>
          simp only [List.cons_append, List.append_assoc, List.length_cons, List.nil_append]
            at fits ⊢
          refine complete_decline (by simp [StartsWithNone, spelled]) ?_
          refine complete_decline (by simp [StartsWithNone, spelled]) ?_
          refine complete_decline (by simp [StartsWithNone, spelled]) (complete_accept spelled ?_)
          exact complete_loop complete derived (completeBody _) opened derivedBody closed
            (by omega)
      | result spelled derived ended =>
          simp only [List.cons_append, List.append_assoc, List.length_cons, List.nil_append]
            at fits ⊢
          refine complete_decline (by simp [StartsWithNone, spelled]) ?_
          refine complete_decline (by simp [StartsWithNone, spelled]) ?_
          refine complete_decline (by simp [StartsWithNone, spelled]) ?_
          refine complete_decline (by simp [StartsWithNone, spelled]) (complete_accept spelled ?_)
          exact complete_result complete derived ended (by omega)
      | expression different derived ended =>
          rw [List.append_assoc] at fits ⊢
          refine complete_simple (startsWithNone_append different derived.nonempty) ?_
          exact complete_simple_expression completeLonger derived ended fits
      | assignment different derived spelled derivedValue ended =>
          simp only [List.cons_append, List.append_assoc, List.nil_append] at fits ⊢
          refine complete_simple (startsWithNone_append different derived.nonempty) ?_
          exact complete_simple_assignment completeLonger derived spelled derivedValue ended fits

theorem complete_typedName (context : String) (size : Nat) :
    Complete (typedName context) IsTypedName (fun _ => True) size := by
  rintro taken value rest ⟨isName, spelled, isType⟩ _ _
  refine complete_bind (complete_identifier isName) (complete_bind (complete_symbol spelled) ?_)
  exact complete_bind (complete_identifier isType) rfl

theorem IsTypedName.nonempty {tokens : List Token} {value : String × String}
    (derived : IsTypedName tokens value) : tokens ≠ [] := by
  cases derived
  simp

theorem stops_comma (token : Token) (rest : List Token) (spelled : token.literal = ",") :
    Stops Level.all (token :: rest) :=
  stops_spelled spelled rest

theorem complete_function {budget : Nat} {keyword : Token} {tokens rest : List Token}
    {item : Function} (derived : IsFunction (keyword :: tokens) item)
    (fits : (tokens ++ rest).length ≤ budget) :
    function budget keyword.offset (tokens ++ rest) = .ok item rest := by
  cases derived with
  | @mk _ name opening closing start finish parameterTokens typeTokens bodyTokens parameters
      returnType body _ isIdentifier opened derivedParameters starts closed derivedType started
      derivedBody finishSpelled =>
      simp only [List.cons_append, List.append_assoc, List.length_cons, List.nil_append,
        List.length_append] at fits ⊢
      have completeName := complete_typedName "in parameter list" budget
      have readParameters := completeName.itemsUnless (fun _ _ _ => trivial)
        (fun _ _ derived => IsTypedName.nonempty derived) (Nat.le_refl budget) parameterTokens
        parameters (closing :: (typeTokens ++ start :: (bodyTokens ++ finish :: rest)))
        ⟨derivedParameters, starts⟩ (by simp; omega)
        ⟨trivial, by simp [StartsWithNone, closed], closing, rfl, closed⟩
      have completeType : Complete (identifier "as return type") IsIdentifier (fun _ => True)
          budget := by
        rintro taken found rest ⟨isIdentifier⟩ _ _
        exact complete_identifier isIdentifier
      have readType := completeType.introduced typeTokens returnType
        (start :: (bodyTokens ++ finish :: rest)) derivedType (by simp; omega)
        ⟨trivial, by simp [StartsWithNone, started]⟩
      have readBody := (complete_statement budget).block blockClosers budget bodyTokens body
        (finish :: rest) derivedBody (by simp; omega) (by simp; omega)
        (startsWithOne_cons (by simp [blockClosers, finishSpelled]))
      refine complete_bind (complete_identifier isIdentifier)
        (complete_bind (complete_symbol opened) (complete_bind readParameters ?_))
      refine complete_bind (complete_symbol closed) (complete_bind readType ?_)
      refine complete_bind (complete_symbol started) (complete_bind readBody ?_)
      exact complete_bind (complete_symbol finishSpelled) rfl

/-- A global variable is read in front of whatever definitions follow. -/
theorem complete_global {budget : Nat} {tokens rest : List Token} {item : Global}
    (derived : IsGlobal tokens item) (fits : (tokens ++ rest).length ≤ budget + 1) :
    definition budget (tokens ++ rest) = .ok (.global item) rest := by
  have complete := complete_expression budget
  have readName {context : String} {nameTokens later : List Token} {value : String × String}
      (derived : IsTypedName nameTokens value) :
      typedName context (nameTokens ++ later) = .ok value later :=
    complete_typedName context _ _ _ _ derived (Nat.le_refl _) trivial
  cases derived with
  | @list keyword equals opening closing semicolon nameTokens tokens name typeName elements
      spelled derivedName equalsSpelled opened derivedElements nonempty closed ended =>
      simp only [List.cons_append, List.append_assoc, List.length_cons, List.nil_append,
        List.length_append] at fits ⊢
      have readElements := complete.items stops_comma (Nat.le_refl budget) tokens elements
        (closing :: semicolon :: rest) ⟨derivedElements, nonempty⟩ (by simp; omega)
        ⟨stops_spelled closed _, by simp [StartsWithNone, closed]⟩
      simp only [definition, spelled, String.reduceEq, if_false, if_true]
      refine map_eq_ok.mpr ⟨_, complete_bind (complete_bind (readName derivedName) ?_)
        (complete_bind (complete_symbol ended) rfl), rfl⟩
      refine complete_bind (complete_symbol equalsSpelled) ?_
      refine complete_bind (complete_symbol opened) ?_
      exact complete_bind readElements (complete_bind (complete_symbol closed) rfl)
  | @mutable keyword semicolon nameTokens valueTokens name typeName value spelled derivedName
      derivedValue ended =>
      simp only [List.cons_append, List.append_assoc, List.length_cons, List.nil_append,
        List.length_append] at fits ⊢
      have readValue := complete.introduced valueTokens value (semicolon :: rest) derivedValue
        (by simp; omega) ⟨stops_spelled ended _, by simp [StartsWithNone, ended]⟩
      simp only [definition, spelled, String.reduceEq, if_false, if_true]
      exact map_eq_ok.mpr ⟨_, complete_bind (complete_bind (readName derivedName)
        (complete_bind readValue rfl)) (complete_bind (complete_symbol ended) rfl), rfl⟩
  | @immutable keyword equals semicolon nameTokens tokens name typeName value spelled derivedName
      equalsSpelled derivedValue ended =>
      simp only [List.cons_append, List.append_assoc, List.length_cons, List.nil_append,
        List.length_append] at fits ⊢
      have readValue := complete tokens value (semicolon :: rest) derivedValue
        (by simp; omega) (stops_spelled ended _)
      simp only [definition, spelled, String.reduceEq, if_false, if_true]
      refine map_eq_ok.mpr ⟨_, complete_bind (complete_bind (readName derivedName) ?_)
        (complete_bind (complete_symbol ended) rfl), rfl⟩
      exact complete_bind (complete_symbol equalsSpelled) (complete_bind readValue rfl)

theorem IsGlobal.nonempty {tokens : List Token} {item : Global}
    (derived : IsGlobal tokens item) : tokens ≠ [] := by
  cases derived <;> simp

theorem complete_cons {budget : Nat} {tokens later : List Token} {first : Definition}
    {others : Program} (nonempty : tokens ≠ [])
    (readFirst : definition budget (tokens ++ later) = .ok first later)
    (readLater : program budget later = .ok others []) :
    program (budget + 1) (tokens ++ later) = .ok (first.before others) [] := by
  obtain ⟨keyword, tokens, rfl⟩ := List.exists_cons_of_ne_nil nonempty
  exact complete_bind readFirst (complete_bind readLater rfl)

/-- Tokens that derive a program are read as that program up to the end. -/
theorem complete_program {tokens : List Token} {found : Program}
    (derived : IsProgram tokens found) :
    ∀ budget, tokens.length ≤ budget → program budget tokens = .ok found [] := by
  induction derived with
  | nil =>
      intro budget _
      cases budget <;> rfl
  | @global tokens later item found derived _ induction =>
      intro budget fits
      have nonempty := IsGlobal.nonempty derived
      have positive := List.length_pos_iff.mpr nonempty
      rw [List.length_append] at fits
      obtain ⟨budget, rfl⟩ : ∃ fewer, budget = fewer + 1 := ⟨budget - 1, by omega⟩
      have shorter : (tokens ++ later).length ≤ budget + 1 := by
        rw [List.length_append]
        omega
      have readFirst := complete_global derived shorter
      exact complete_cons nonempty readFirst (induction budget (by omega))
  | @function tokens later item found derived _ induction =>
      intro budget fits
      obtain ⟨keyword, tail, rfl, spelled⟩ : ∃ keyword tail, tokens = keyword :: tail ∧
          keyword.literal = "FUN" := by
        cases derived with
        | mk spelled => exact ⟨_, _, rfl, spelled⟩
      rw [List.length_append, List.length_cons] at fits
      obtain ⟨budget, rfl⟩ : ∃ fewer, budget = fewer + 1 := ⟨budget - 1, by omega⟩
      have shorter : (tail ++ later).length ≤ budget := by
        rw [List.length_append]
        omega
      have readFunction := complete_function derived shorter
      have readFirst :
          definition budget (keyword :: tail ++ later) = .ok (.function item) later := by
        simp only [definition, List.cons_append, spelled, if_true]
        exact map_eq_ok.mpr ⟨item, readFunction, rfl⟩
      exact complete_cons (by simp) readFirst (induction budget (by omega))

end Reader

theorem Program.ofTokens_of_isProgram {tokens : List Token} {program : Program}
    (derived : IsProgram tokens program) : Program.ofTokens tokens = .ok program := by
  simp only [Program.ofTokens, TokenStream.readProgram, TokenStream.ofList]
  rw [Reader.complete_program derived _ (Nat.le_refl _)]

end Procedural
