import Procedural.Proofs.Reader.Descent
import Procedural.Proofs.Reader.Lookahead

/-!
# Recursive descent comes to an end

On any tokens a descent has an outcome from some depth on, and it is the one of the reader with
a budget that covers the tokens.  The measure is the number of tokens left: an operand, a
statement and a definition take one at least, and every round of a loop starts with one of
them or with a separator.
-/

namespace Procedural

/-- The levels whose operators bind more tightly, from the loosest. -/
def Level.tighter : Level → List Level
  | .logical => [.comparison, .additive, .multiplicative]
  | .comparison => [.additive, .multiplicative]
  | .additive => [.multiplicative]
  | .multiplicative => []

namespace Descent

variable {α β : Type} {tokens : List Token} {least count : Nat}

/-- From some depth on a method comes to one outcome, which leaves an end of the tokens, after a
success without some number of them at least. -/
structure Ends (method : Nat → Descent α) (tokens : List Token) (outcome : Outcome α)
    (least : Nat) : Prop where
  comes : ∃ enough, ∀ depth, enough ≤ depth → (method depth).read tokens = some outcome.ends
  leaves : outcome.rest <:+ tokens
  takes : ∀ value rest, outcome = .ok value rest → rest.length + least ≤ tokens.length

theorem read_bind (first : Descent α) (next : α → Descent β) (tokens : List Token) :
    (first >>= next).read tokens =
      (first.read tokens).bind fun reached =>
        match reached with
        | (.ok value, rest) => (next value).read rest
        | (.error why, rest) => some (.error why, rest) := by
  simp only [read, ExceptT.run_bind, StateT.run_bind]
  rcases first.run.run tokens with _ | ⟨_ | _, _⟩ <;> rfl

section Rules

variable {method body : Nat → Descent α} {outcome : Outcome α}

theorem Ends.weaken (ends : Ends method tokens outcome count) (fewer : least ≤ count) :
    Ends method tokens outcome least :=
  ⟨ends.comes, ends.leaves, fun value rest same =>
    Nat.le_trans (Nat.add_le_add_left fewer _) (ends.takes value rest same)⟩

/-- A call comes to what the called method comes to one call less deep. -/
theorem Ends.step (unfolds : ∀ depth, method (depth + 1) = body depth)
    (ends : Ends body tokens outcome least) : Ends method tokens outcome least := by
  obtain ⟨enough, known⟩ := ends.comes
  refine ⟨⟨enough + 1, fun depth deep => ?_⟩, ends.leaves, ends.takes⟩
  obtain ⟨depth, rfl⟩ := Nat.exists_eq_add_of_le' deep
  rw [← Nat.add_assoc, unfolds]
  exact known (depth + enough) (Nat.le_add_left _ _)

theorem Ends.bind {first : Nat → Descent α} {next : Nat → α → Descent β} {reader : Reader α}
    {next' : α → Reader β} (ends : Ends first tokens (reader tokens) count)
    (later : ∀ value rest, rest.length + count ≤ tokens.length →
      Ends (fun depth => next depth value) rest (next' value rest) (least - count)) :
    Ends (fun depth => first depth >>= next depth) tokens ((reader >>= next') tokens)
      least := by
  obtain ⟨enough, known⟩ := ends.comes
  cases reached : reader tokens with
  | fail why rest =>
      rw [reached] at ends known
      rw [Reader.bind_of_fail reached]
      refine ⟨⟨enough, fun depth deep => ?_⟩, ends.leaves, nofun⟩
      rw [read_bind, known depth deep]
      rfl
  | ok value rest =>
      rw [reached] at ends known
      rw [Reader.bind_of_ok reached]
      have taken := ends.takes value rest rfl
      have followed := later value rest taken
      obtain ⟨enough', known'⟩ := followed.comes
      refine ⟨⟨max enough enough', fun depth deep => ?_⟩, followed.leaves.trans ends.leaves, ?_⟩
      · rw [read_bind, known depth (Nat.le_trans (Nat.le_max_left _ _) deep)]
        exact known' depth (Nat.le_trans (Nat.le_max_right _ _) deep)
      · intro result rest' same
        have takenLater := followed.takes result rest' same
        omega

/-- A first step that consumes nothing. -/
theorem Ends.look {first : Nat → Descent α} {next : Nat → α → Descent β} (value : α)
    {outcome : Outcome β} (known : ∀ depth, (first depth).read tokens = some (.ok value, tokens))
    (later : Ends (fun depth => next depth value) tokens outcome least) :
    Ends (fun depth => first depth >>= next depth) tokens outcome least := by
  obtain ⟨enough, known'⟩ := later.comes
  refine ⟨⟨enough, fun depth deep => ?_⟩, later.leaves, later.takes⟩
  rw [read_bind, known]
  exact known' depth deep

/-- A first step that consumes the current token. -/
theorem Ends.drop {first : Nat → Descent α} {next : Nat → α → Descent β} (value : α)
    {token : Token} {rest : List Token} {outcome : Outcome β}
    (known : ∀ depth, (first depth).read (token :: rest) = some (.ok value, rest))
    (later : Ends (fun depth => next depth value) rest outcome (least - 1)) :
    Ends (fun depth => first depth >>= next depth) (token :: rest) outcome least := by
  obtain ⟨enough, known'⟩ := later.comes
  refine ⟨⟨enough, fun depth deep => ?_⟩, later.leaves.trans (List.suffix_cons token rest), ?_⟩
  · rw [read_bind, known]
    exact known' depth deep
  · intro result rest' same
    have takenLater := later.takes result rest' same
    rw [List.length_cons]
    omega

/-- A method has one outcome at most. -/
theorem Ends.unique {outcome' : Outcome α} {least' : Nat}
    (ends : Ends method tokens outcome least) (ends' : Ends method tokens outcome' least') :
    outcome.ends = outcome'.ends := by
  obtain ⟨enough, known⟩ := ends.comes
  obtain ⟨enough', known'⟩ := ends'.comes
  exact Option.some.inj <|
    (known _ (Nat.le_max_left enough enough')).symm.trans
      (known' _ (Nat.le_max_right enough enough'))

theorem Ends.single {reader : Reader α} (leaves : (reader tokens).rest <:+ tokens)
    (takes : ∀ value rest, reader tokens = .ok value rest →
      rest.length + least ≤ tokens.length) :
    Ends (fun _ => Descent.single reader) tokens (reader tokens) least :=
  ⟨⟨0, fun _ _ => rfl⟩, leaves, takes⟩

theorem read_single {reader : Reader α} {outcome : Outcome α} (known : reader tokens = outcome) :
    (Descent.single reader).read tokens = some outcome.ends :=
  congrArg (fun outcome : Outcome α => some outcome.ends) known

theorem ends_pure (value : α) :
    Ends (fun _ => pure value) tokens ((pure value : Reader α) tokens) 0 := by
  refine ⟨⟨0, fun _ _ => rfl⟩, List.suffix_rfl, ?_⟩
  intro value' rest same
  cases same
  exact Nat.le_refl _

theorem ends_fail (why : Obstacle) :
    Ends (fun _ => (fail why : Descent α)) tokens (.fail why tokens) least :=
  .single List.suffix_rfl nofun

theorem ends_symbol (literal context : String) :
    Ends (fun _ => symbol literal context) tokens (Reader.symbol literal context tokens) 1 := by
  refine .single ((@Reader.steady_symbol 0 0 literal context).leaves tokens) ?_
  intro token rest same
  obtain ⟨rfl, _⟩ := Reader.symbol_eq_ok.mp same
  exact Nat.le_refl _

theorem ends_identifier (context : String) :
    Ends (fun _ => identifier context) tokens (Reader.identifier context tokens) 1 := by
  refine .single ((@Reader.steady_identifier 0 0 context).leaves tokens) ?_
  intro name rest same
  obtain ⟨token, rfl, _, _⟩ := Reader.identifier_eq_ok.mp same
  exact Nat.le_refl _

/-- A phrase may end with a symbol, after which nothing remains to be read. -/
theorem ends_closing (literal context : String) (value : α) :
    Ends (fun _ => do let _ ← symbol literal context; pure value) tokens
      ((do let _ ← Reader.symbol literal context; pure value) tokens) 0 :=
  (ends_symbol literal context).bind fun _ _ _ => ends_pure value

/-- A choice by whether the first token, which is then consumed, has the given characters. -/
theorem Ends.ifAccept {literal : String} {yes no : Nat → Descent α} {yes' no' : Reader α}
    (ifYes : ∀ rest, rest.length + 1 ≤ tokens.length → Ends yes rest (yes' rest) (least - 1))
    (ifNo : Ends no tokens (no' tokens) least) :
    Ends (fun depth => do if ← accept literal then yes depth else no depth) tokens
      ((do if ← Reader.accept literal then yes' else no') tokens) least := by
  cases tokens with
  | nil => exact .look false (fun _ => rfl) ifNo
  | cons token rest =>
      by_cases spelled : token.literal = literal
      · rw [Reader.ifAccept_of_eq spelled]
        exact .drop true (fun _ => read_single (Reader.accept_of_eq spelled))
          (ifYes rest (Nat.le_refl _))
      · rw [Reader.ifAccept_of_ne spelled]
        exact .look false (fun _ => read_single (Reader.accept_of_ne spelled)) ifNo

/-- A choice by whether the first token, which stays, has the given characters. -/
theorem Ends.ifSees {literal : String} {yes no : Nat → Descent α} {yes' no' : Reader α}
    (ifYes : Ends yes tokens (yes' tokens) least) (ifNo : Ends no tokens (no' tokens) least) :
    Ends (fun depth => do if ← sees literal then yes depth else no depth) tokens
      ((do if ← Reader.sees literal then yes' else no') tokens) least := by
  have known : ∃ seen, Reader.sees literal tokens = .ok seen tokens := by
    cases tokens <;> exact ⟨_, rfl⟩
  obtain ⟨seen, known⟩ := known
  rw [Reader.bind_of_ok known]
  refine .look seen (fun _ => read_single known) ?_
  cases seen with
  | true => exact ifYes
  | false => exact ifNo

theorem Ends.introduced {literal : String} {item : Nat → Descent α} {item' : Reader α}
    (ends : ∀ rest, rest.length + 1 ≤ tokens.length → Ends item rest (item' rest) count) :
    Ends (fun depth => introduced literal (item depth)) tokens
      (Reader.introduced literal item' tokens) 0 := by
  refine .ifAccept (fun rest fewer => (ends rest fewer).bind fun value _ _ => ?_) (ends_pure none)
  exact (ends_pure (some value)).weaken (Nat.sub_le _ _)

theorem Ends.peek {next : Nat → Option Token → Descent α} {outcome : Outcome α}
    (ends : Ends (fun depth => next depth tokens.head?) tokens outcome least) :
    Ends (fun depth => peek >>= next depth) tokens outcome least :=
  .look tokens.head? (fun _ => rfl) ends

theorem Ends.advance {token : Token} {rest : List Token} {next : Nat → Unit → Descent α}
    {outcome : Outcome α} (ends : Ends (fun depth => next depth ()) rest outcome (least - 1)) :
    Ends (fun depth => advance >>= next depth) (token :: rest) outcome least :=
  .drop () (fun _ => rfl) ends

end Rules

section Expressions

/-- On less than some number of tokens a method comes to what a reader comes to with any budget
that covers them. -/
def Reads (method : Nat → Descent α) (reader : Nat → Reader α) (size least : Nat) : Prop :=
  ∀ tokens, tokens.length < size → ∀ budget, tokens.length ≤ budget →
    Ends method tokens (reader budget tokens) least

variable {size : Nat}

theorem ends_expressions_of {item : Reader Expr} {limit : Nat}
    (first : Ends expression tokens (item tokens) 1)
    (further : ∀ rest, rest.length + 1 ≤ tokens.length →
      Ends furtherExpressions rest (Reader.furtherItems item limit rest) 0) :
    Ends expressions tokens (Reader.items item limit tokens) 1 := by
  refine .step (fun _ => rfl) (first.bind fun value rest fewer => ?_)
  exact (further rest fewer).bind fun values _ _ => ends_pure (value :: values)

theorem Reads.furtherExpressions (inner : Reads expression Reader.expression size 1)
    (budget : Nat) : ∀ limit tokens, tokens.length < limit → tokens.length < size →
    tokens.length ≤ budget →
    Ends furtherExpressions tokens
      (Reader.furtherItems (Reader.expression budget) limit tokens) 0 := by
  intro limit
  induction limit with
  | zero => exact fun tokens short => absurd short (Nat.not_lt_zero _)
  | succ limit induction =>
      intro tokens short fits covers
      refine .step (fun _ => rfl) (.ifAccept (fun rest fewer => ?_) (ends_pure []))
      refine (ends_expressions_of (inner rest (by omega) budget (by omega)) ?_).weaken (by omega)
      exact fun rest' fewer' => induction rest' (by omega) (by omega) (by omega)

/-- One or more expressions with commas between them. -/
theorem Reads.expressions (inner : Reads expression Reader.expression size 1) {limit budget : Nat}
    (short : tokens.length ≤ limit) (fits : tokens.length < size)
    (covers : tokens.length ≤ budget) :
    Ends expressions tokens (Reader.items (Reader.expression budget) limit tokens) 1 :=
  ends_expressions_of (inner tokens fits budget covers) fun rest fewer =>
    inner.furtherExpressions budget limit rest (by omega) (by omega) (by omega)

theorem Reads.afterName (inner : Reads expression Reader.expression size 1) {budget : Nat}
    (fits : tokens.length < size + 1) (covers : tokens.length ≤ budget + 1) (offset : Nat)
    (name : String) :
    Ends (fun depth => afterName depth offset name) tokens
      (Reader.afterName (Reader.expression budget) (budget + 1) offset name tokens) 0 := by
  refine .step (fun _ => rfl) (.ifAccept (fun rest fewer => ?_) ?_)
  · refine .bind (.step (fun _ => rfl) (.ifSees (ends_pure [])
      ((inner.expressions (by omega) (by omega) (by omega)).weaken (Nat.zero_le 1)))) ?_
    intro arguments rest' _
    exact ends_closing _ _ _
  · rw [Reader.bind_introduced]
    refine .ifAccept (fun rest fewer => ?_) (ends_pure _)
    refine (inner rest (by omega) budget (by omega)).bind fun index rest' _ => ?_
    exact ends_closing _ _ _

theorem Reads.primary (inner : Reads expression Reader.expression size 1) {budget : Nat}
    (fits : tokens.length < size + 1) (covers : tokens.length ≤ budget + 1) :
    Ends primary tokens
      (Reader.primary (Reader.expression budget) (budget + 1) tokens) 1 := by
  refine .step (fun _ => rfl) (.peek ?_)
  cases tokens with
  | nil => exact ends_fail _
  | cons token rest =>
      rw [List.length_cons] at fits covers
      simp only [List.head?_cons, Reader.primary]
      by_cases isLiteral : token.isLiteral = true
      · simp only [if_pos isLiteral]
        cases token.scalar? with
        | none => exact ends_fail _
        | some value => exact .advance (ends_pure _)
      · simp only [if_neg isLiteral]
        by_cases opens : token.literal = "("
        · rw [if_pos opens]
          refine .drop true (fun _ => read_single (Reader.accept_of_eq opens)) ?_
          refine ((inner rest (by omega) budget (by omega)).bind fun value rest' _ => ?_).weaken
            (Nat.zero_le 1)
          exact ends_closing _ _ _
        · rw [if_neg opens]
          refine .look false (fun _ => read_single (Reader.accept_of_ne opens)) ?_
          by_cases isName : token.kind = .identifier
          · simp only [Bool.false_eq_true, if_false, if_pos isName]
            exact .advance (inner.afterName (by omega) (by omega) token.offset token.literal)
          · simp only [Bool.false_eq_true, if_false, if_neg isName]
            exact ends_fail _

/-- What a level reads if its operands are read like that. -/
theorem ends_furtherOperands {level : Level} {item : Reader Expr} :
    ∀ {limit : Nat} {tokens : List Token} (left : Expr), tokens.length < limit →
    (∀ rest, rest.length < tokens.length →
      Ends (fun depth => operand depth level) rest (item rest) 1) →
    Ends (fun depth => furtherOperands depth level left) tokens
      (Reader.furtherOperands level item limit left tokens) 0 := by
  intro limit
  induction limit with
  | zero => exact fun _ short => absurd short (Nat.not_lt_zero _)
  | succ limit induction =>
      intro tokens left short operands
      refine .step (fun _ => rfl) ?_
      cases tokens with
      | nil => exact .look none (fun _ => rfl) (ends_pure left)
      | cons token rest =>
          rw [List.length_cons] at short operands
          cases spelled : token.operatorAt? level with
          | none =>
              have known : Reader.operator level (token :: rest) = .ok none (token :: rest) := by
                rw [Reader.operator, spelled]
              rw [Reader.furtherOperands, Reader.bind_of_ok known]
              exact .look none (fun _ => read_single known) (ends_pure left)
          | some op =>
              have known : Reader.operator level (token :: rest) = .ok (some op) rest := by
                rw [Reader.operator, spelled]
              rw [Reader.furtherOperands, Reader.bind_of_ok known]
              refine .drop (some op) (fun _ => read_single known) ?_
              refine (operands rest (by omega)).bind fun right rest' fewer => ?_
              exact induction _ (by omega) fun last less => operands last (by omega)

theorem ends_operands {level : Level} {item : Reader Expr} {limit : Nat}
    (short : tokens.length ≤ limit)
    (operands : ∀ rest, rest.length ≤ tokens.length →
      Ends (fun depth => operand depth level) rest (item rest) 1) :
    Ends (fun depth => Descent.operands depth level) tokens
      (Reader.operands level item limit tokens) 1 := by
  refine .step (fun _ => rfl) ((operands tokens (Nat.le_refl _)).bind fun left rest fewer => ?_)
  exact ends_furtherOperands left (by omega) fun last less => operands last (by omega)

/-- Operands of a level are read by the tier of the tighter levels. -/
theorem Reads.operand (inner : Reads expression Reader.expression size 1) {budget : Nat} :
    ∀ (level : Level) {tokens : List Token}, tokens.length < size + 1 →
    tokens.length ≤ budget + 1 →
    Ends (fun depth => operand depth level) tokens
      (Reader.tier (Reader.primary (Reader.expression budget) (budget + 1)) (budget + 1)
        level.tighter tokens) 1
  | .multiplicative, _, fits, covers => .step (fun _ => rfl) (inner.primary fits covers)
  | .additive, _, fits, covers => .step (fun _ => rfl) <| ends_operands covers fun rest fewer =>
      inner.operand .multiplicative (by omega) (by omega)
  | .comparison, _, fits, covers => .step (fun _ => rfl) <| ends_operands covers fun rest fewer =>
      inner.operand .additive (by omega) (by omega)
  | .logical, _, fits, covers => .step (fun _ => rfl) <| ends_operands covers fun rest fewer =>
      inner.operand .comparison (by omega) (by omega)
termination_by level => level.tighter.length
decreasing_by all_goals decide

theorem Reads.operands (inner : Reads expression Reader.expression size 1) {budget : Nat}
    (level : Level) (fits : tokens.length < size + 1) (covers : tokens.length ≤ budget + 1) :
    Ends (fun depth => operands depth level) tokens
      (Reader.tier (Reader.primary (Reader.expression budget) (budget + 1)) (budget + 1)
        (level :: level.tighter) tokens) 1 :=
  ends_operands covers fun rest fewer => inner.operand level (by omega) (by omega)

theorem Reads.levels (inner : Reads expression Reader.expression size 1) {budget : Nat}
    (fits : tokens.length < size + 1) (covers : tokens.length ≤ budget + 1) :
    Ends expression tokens (Reader.levels (Reader.expression budget) (budget + 1) tokens) 1 :=
  .step (fun _ => rfl) (inner.operands .logical fits covers)

theorem reads_expression (size : Nat) : Reads expression Reader.expression size 1 := by
  induction size with
  | zero => exact fun _ fits => absurd fits (Nat.not_lt_zero _)
  | succ size induction =>
      intro tokens fits budget covers
      cases budget with
      | zero =>
          -- At the end of input both readers miss an expression.
          obtain rfl := List.length_eq_zero_iff.mp (Nat.le_zero.mp covers)
          change Ends expression [] (Reader.levels (Reader.expression 0) 1 []) 1
          exact induction.levels fits (Nat.zero_le 1)
      | succ budget => exact induction.levels fits covers

theorem ends_expression {budget : Nat} (covers : tokens.length ≤ budget) :
    Ends expression tokens (Reader.expression budget tokens) 1 :=
  reads_expression _ tokens (Nat.lt_succ_self _) budget covers

theorem ends_expressions {budget limit : Nat} (covers : tokens.length ≤ budget)
    (short : tokens.length ≤ limit) :
    Ends expressions tokens (Reader.items (Reader.expression budget) limit tokens) 1 :=
  (reads_expression _).expressions short (Nat.lt_succ_self _) covers

end Expressions

section Statements

variable {size budget : Nat}

theorem ends_declaration (covers : tokens.length ≤ budget) :
    Ends declaration tokens (Reader.declaration (Reader.expression budget) tokens) 1 := by
  refine (ends_identifier _).bind fun name rest fewer => ?_
  refine (Ends.introduced fun _ _ => ends_identifier _).bind fun typeName rest' fewer' => ?_
  refine (Ends.introduced fun last less => ends_expression (by omega)).bind
    fun value last less => ?_
  by_cases bare : (typeName.isNone && value.isNone) = true
  · simp only [if_pos bare]
    exact ends_fail _
  · simp only [if_neg bare]
    exact ends_closing _ _ _

theorem ends_result (covers : tokens.length ≤ budget) :
    Ends result tokens (Reader.result (Reader.expression budget) tokens) 1 := by
  refine (ends_expression covers).bind fun value rest fewer => ?_
  exact ends_closing _ _ _

theorem ends_simple (covers : tokens.length ≤ budget) :
    Ends simple tokens (Reader.simple (Reader.expression budget) tokens) 1 := by
  refine (ends_expression covers).bind fun first rest fewer => ?_
  rw [Reader.bind_introduced]
  refine .ifAccept (fun rest' fewer' => ?_) ?_
  · refine (ends_expression (by omega)).bind fun value last less => ?_
    exact ends_closing _ _ _
  · exact ends_closing _ _ _

/-- Blocks of statements. -/
theorem Reads.block (stmts : Reads statement Reader.statement size 1) (closers : List String)
    (budget : Nat) : ∀ {limit : Nat} {tokens : List Token}, tokens.length < limit →
    tokens.length < size → tokens.length ≤ budget →
    Ends (block closers) tokens (Reader.block (Reader.statement budget) closers limit tokens)
      0 := by
  intro limit
  induction limit with
  | zero => exact fun short => absurd short (Nat.not_lt_zero _)
  | succ limit induction =>
      intro tokens short fits covers
      refine .step (fun _ => rfl) (.peek ?_)
      cases tokens with
      | nil => exact ends_pure []
      | cons token rest =>
          simp only [List.head?_cons, Reader.block]
          by_cases closes : closers.contains token.literal = true
          · simp only [if_pos closes]
            exact ends_pure []
          · simp only [if_neg closes]
            refine (stmts _ fits budget covers).bind fun stmt rest' fewer => ?_
            refine (induction (by omega) (by omega) (by omega)).bind fun others _ _ => ?_
            exact ends_pure _

theorem Reads.cases (stmts : Reads statement Reader.statement size 1) (budget : Nat) :
    ∀ {limit : Nat} {tokens : List Token}, tokens.length < limit → tokens.length < size →
    tokens.length ≤ budget →
    Ends cases tokens (Reader.cases (Reader.expression budget)
      (Reader.block (Reader.statement budget) Reader.caseClosers budget) limit tokens) 0 := by
  intro limit
  induction limit with
  | zero => exact fun short => absurd short (Nat.not_lt_zero _)
  | succ limit induction =>
      intro tokens short fits covers
      refine .step (fun _ => rfl) (.ifAccept (fun rest fewer => ?_) (ends_pure []))
      refine (ends_expression (by omega)).bind fun value rest' fewer' => ?_
      refine (ends_symbol _ _).bind fun _ rest'' fewer'' => ?_
      refine (stmts.block _ budget (by omega) (by omega) (by omega)).bind fun body last less => ?_
      exact (induction (by omega) (by omega) (by omega)).bind fun others _ _ => ends_pure _

theorem Reads.switch (stmts : Reads statement Reader.statement size 1)
    (fits : tokens.length < size) (covers : tokens.length ≤ budget) :
    Ends switch tokens (Reader.switch (Reader.expression budget)
      (Reader.block (Reader.statement budget) Reader.caseClosers budget) budget tokens) 1 := by
  refine .step (fun _ => rfl) ((ends_expression covers).bind fun condition rest fewer => ?_)
  refine (stmts.cases budget (by omega) (by omega) (by omega)).bind fun valued rest fewer => ?_
  refine (ends_symbol _ _).bind fun _ rest fewer => ?_
  refine (stmts.block _ budget (by omega) (by omega) (by omega)).bind fun body rest fewer => ?_
  exact ends_closing _ _ _

theorem Reads.branch (stmts : Reads statement Reader.statement size 1)
    (fits : tokens.length < size) (covers : tokens.length ≤ budget) :
    Ends branch tokens (Reader.branch (Reader.expression budget)
      (Reader.block (Reader.statement budget) Reader.blockClosers budget) tokens) 1 := by
  refine .step (fun _ => rfl) ((ends_expression covers).bind fun condition rest fewer => ?_)
  refine (ends_symbol _ _).bind fun _ rest fewer => ?_
  refine (stmts.block _ budget (by omega) (by omega) (by omega)).bind fun body rest fewer => ?_
  refine (Ends.introduced fun last less =>
    stmts.block _ budget (by omega) (by omega) (by omega)).bind fun others rest fewer => ?_
  exact ends_closing _ _ _

theorem Reads.loop (stmts : Reads statement Reader.statement size 1)
    (fits : tokens.length < size) (covers : tokens.length ≤ budget) :
    Ends loop tokens (Reader.loop (Reader.expression budget)
      (Reader.block (Reader.statement budget) Reader.blockClosers budget) tokens) 1 := by
  refine .step (fun _ => rfl) ((ends_expression covers).bind fun condition rest fewer => ?_)
  refine (ends_symbol _ _).bind fun _ rest fewer => ?_
  refine (stmts.block _ budget (by omega) (by omega) (by omega)).bind fun body rest fewer => ?_
  exact ends_closing _ _ _

theorem Reads.anyStatement (stmts : Reads statement Reader.statement size 1)
    (fits : tokens.length < size + 1) (covers : tokens.length ≤ budget + 1) :
    Ends statement tokens (Reader.statement (budget + 1) tokens) 1 := by
  refine .step (fun _ => rfl) ?_
  refine .ifAccept (fun rest fewer => (ends_declaration (by omega)).weaken (Nat.zero_le 1)) ?_
  refine .ifAccept (fun rest fewer =>
    (stmts.switch (by omega) (by omega)).weaken (Nat.zero_le 1)) ?_
  refine .ifAccept (fun rest fewer =>
    (stmts.branch (by omega) (by omega)).weaken (Nat.zero_le 1)) ?_
  refine .ifAccept (fun rest fewer =>
    (stmts.loop (by omega) (by omega)).weaken (Nat.zero_le 1)) ?_
  refine .ifAccept (fun rest fewer => (ends_result (by omega)).weaken (Nat.zero_le 1)) ?_
  exact ends_simple covers

theorem reads_statement (size : Nat) : Reads statement Reader.statement size 1 := by
  induction size with
  | zero => exact fun _ fits => absurd fits (Nat.not_lt_zero _)
  | succ size induction =>
      intro tokens fits budget covers
      cases budget with
      | zero =>
          obtain rfl := List.length_eq_zero_iff.mp (Nat.le_zero.mp covers)
          change Ends statement [] (Reader.statement 1 []) 1
          exact induction.anyStatement fits (Nat.zero_le 1)
      | succ budget => exact induction.anyStatement fits covers

end Statements

section Definitions

variable {budget : Nat}

theorem ends_typedName (context : String) :
    Ends (fun _ => typedName context) tokens (Reader.typedName context tokens) 1 := by
  refine (ends_identifier _).bind fun name rest _ => ?_
  refine (ends_symbol _ _).bind fun _ rest _ => ?_
  exact (ends_identifier _).bind fun typeName _ _ => ends_pure (name, typeName)

theorem ends_listGlobal (covers : tokens.length ≤ budget) (offset : Nat) :
    Ends (fun depth => listGlobal depth offset) tokens
      (Reader.listGlobal (Reader.expression budget) budget offset tokens) 1 := by
  refine (ends_typedName _).bind ?_
  rintro ⟨name, typeName⟩ rest fewer
  refine (ends_symbol _ _).bind fun _ rest fewer => ?_
  refine (ends_symbol _ _).bind fun bracket rest fewer => ?_
  refine (ends_expressions (by omega) (by omega)).bind fun elements rest fewer => ?_
  exact ends_closing _ _ _

theorem ends_mutableGlobal (covers : tokens.length ≤ budget) (offset : Nat) :
    Ends (fun depth => mutableGlobal depth offset) tokens
      (Reader.mutableGlobal (Reader.expression budget) offset tokens) 1 := by
  refine (ends_typedName _).bind ?_
  rintro ⟨name, typeName⟩ rest fewer
  exact (Ends.introduced fun last less => ends_expression (by omega)).bind
    fun value _ _ => ends_pure _

theorem ends_immutableGlobal (covers : tokens.length ≤ budget) (offset : Nat) :
    Ends (fun depth => immutableGlobal depth offset) tokens
      (Reader.immutableGlobal (Reader.expression budget) offset tokens) 1 := by
  refine (ends_typedName _).bind ?_
  rintro ⟨name, typeName⟩ rest fewer
  refine (ends_symbol _ _).bind fun _ rest fewer => ?_
  exact (ends_expression (by omega)).bind fun value _ _ => ends_pure _

end Definitions

end Descent

namespace Reader

variable {budget : Nat}

def globalBody (budget offset : Nat) : Reader Global := do
  if ← accept "LIST" then listGlobal (expression budget) budget offset
  else if ← accept "VAR" then mutableGlobal (expression budget) offset
  else
    let _ ← symbol "VAL" "at start of global"
    immutableGlobal (expression budget) offset

/-- Reads a global variable from its keyword on, which has to be there. -/
def globalFrom (budget offset : Nat) : Reader Global :=
  finishGlobal (globalBody budget offset)

/-- Reads a function from its keyword on, which has to be there. -/
def functionFrom (budget offset : Nat) : Reader Function := do
  let _ ← symbol "FUN" "at start of function"
  function budget offset

theorem definition_function {token : Token} {rest : List Token}
    (spelled : token.literal = "FUN") :
    definition budget (token :: rest) =
      (functionFrom budget token.offset >>= fun item => pure (.function item))
        (token :: rest) := by
  have known : symbol "FUN" "at start of function" (token :: rest) = .ok token rest :=
    if_pos spelled
  rw [functionFrom, Reader.bind_assoc, bind_of_ok known]
  exact if_pos spelled

theorem definition_global {token : Token} {rest : List Token}
    (announced : ["VAR", "VAL", "LIST"].contains token.literal = true) :
    definition budget (token :: rest) =
      (globalFrom budget token.offset >>= fun item => pure (.global item))
        (token :: rest) := by
  have spelled : token.literal = "LIST" ∨ token.literal = "VAR" ∨ token.literal = "VAL" := by
    simp only [List.contains_eq_mem, List.mem_cons, List.not_mem_nil, or_false,
      decide_eq_true_eq] at announced
    tauto
  rw [globalFrom]
  rcases spelled with spelled | spelled | spelled
  · simp only [definition, spelled, String.reduceEq, if_false, if_true]
    refine Reader.bind_congr (Reader.bind_congr ?_ _) _
    rw [globalBody, ifAccept_of_eq spelled]
  · simp only [definition, spelled, String.reduceEq, if_false, if_true]
    refine Reader.bind_congr (Reader.bind_congr ?_ _) _
    rw [globalBody, ifAccept_of_ne (by simp [spelled]), ifAccept_of_eq spelled]
  · have known : symbol "VAL" "at start of global" (token :: rest) = .ok token rest :=
      if_pos spelled
    simp only [definition, spelled, String.reduceEq, if_false, if_true]
    refine Reader.bind_congr (Reader.bind_congr ?_ _) _
    rw [globalBody, ifAccept_of_ne (by simp [spelled]), ifAccept_of_ne (by simp [spelled]),
      bind_of_ok known]

theorem definition_none {token : Token} {rest : List Token} (notFunction : token.literal ≠ "FUN")
    (notGlobal : ¬["VAR", "VAL", "LIST"].contains token.literal = true) :
    definition budget (token :: rest) = .fail (.expected .definition) (token :: rest) := by
  simp only [List.contains_eq_mem, List.mem_cons, List.not_mem_nil, or_false, not_or,
    decide_eq_true_eq] at notGlobal
  obtain ⟨notVar, notVal, notList⟩ := notGlobal
  simp only [definition, if_neg notFunction, if_neg notList, if_neg notVar, if_neg notVal]

end Reader

/-- The offset of the first token, if there is one. -/
def startOf (tokens : List Token) : Nat :=
  (tokens.head?.map Token.offset).getD 0

namespace Descent

section Definitions

variable {budget : Nat} {α : Type} {tokens : List Token}

theorem ends_globalBody (covers : tokens.length ≤ budget + 1) (offset : Nat) :
    Ends (fun depth => globalBody depth offset) tokens (Reader.globalBody budget offset tokens)
      1 := by
  refine .ifAccept (fun rest fewer => (ends_listGlobal (by omega) _).weaken (by omega)) ?_
  refine .ifAccept (fun rest fewer => (ends_mutableGlobal (by omega) _).weaken (by omega)) ?_
  refine (ends_symbol _ _).bind fun _ rest fewer => ?_
  exact (ends_immutableGlobal (by omega) _).weaken (by omega)

theorem ends_global (covers : tokens.length ≤ budget + 1) :
    Ends global tokens (Reader.globalFrom budget (startOf tokens) tokens) 1 :=
  .look (startOf tokens) (fun _ => rfl) <| (ends_globalBody covers _).bind
    fun global _ _ => ends_closing _ _ global

theorem ends_parameters : ∀ {limit : Nat} {tokens : List Token}, tokens.length ≤ limit →
    Ends parameters tokens (Reader.items (Reader.typedName "in parameter list") limit tokens)
      1 := by
  intro limit
  induction limit with
  | zero =>
      intro tokens none
      exact .step (fun _ => rfl)
        ((ends_typedName _).bind fun _ rest fewer => absurd fewer (by omega))
  | succ limit induction =>
      intro tokens short
      refine .step (fun _ => rfl) ((ends_typedName _).bind fun first rest fewer => ?_)
      have further : Ends furtherParameters rest
          (Reader.furtherItems (Reader.typedName "in parameter list") (limit + 1) rest) 0 :=
        .step (fun _ => rfl) (.ifAccept (fun rest' fewer' =>
          (induction (by omega)).weaken (Nat.zero_le 1)) (ends_pure []))
      exact further.bind fun others _ _ => ends_pure (first :: others)

theorem ends_anyParameters {limit : Nat} (short : tokens.length ≤ limit) :
    Ends anyParameters tokens
      (Reader.itemsUnless ")" (Reader.typedName "in parameter list") limit tokens) 0 :=
  .ifSees (ends_pure []) ((ends_parameters short).weaken (Nat.zero_le 1))

theorem ends_function (covers : tokens.length ≤ budget + 1) :
    Ends function tokens (Reader.functionFrom budget (startOf tokens) tokens) 1 := by
  refine .look (startOf tokens) (fun _ => rfl) ?_
  refine (ends_symbol _ _).bind fun _ rest fewer => ?_
  refine (ends_identifier _).bind fun name rest fewer => ?_
  refine (ends_symbol _ _).bind fun _ rest fewer => ?_
  refine (ends_anyParameters (by omega)).bind fun parameters rest fewer => ?_
  refine (ends_symbol _ _).bind fun _ rest fewer => ?_
  refine (Ends.introduced fun _ _ => ends_identifier _).bind fun returnType rest fewer => ?_
  refine (ends_symbol _ _).bind fun _ rest fewer => ?_
  refine ((reads_statement _).block _ budget (by omega) (Nat.lt_succ_self _) (by omega)).bind
    fun body rest fewer => ?_
  exact ends_closing _ _ _

theorem ends_program (budget : Nat) : ∀ {tokens : List Token}, tokens.length ≤ budget →
    Ends program tokens (Reader.program budget tokens) 0 := by
  induction budget with
  | zero =>
      intro tokens covers
      obtain rfl := List.length_eq_zero_iff.mp (Nat.le_zero.mp covers)
      exact .step (fun _ => rfl) (.peek (ends_pure _))
  | succ budget induction =>
      intro tokens covers
      refine .step (fun _ => rfl) (.peek ?_)
      cases tokens with
      | nil => exact ends_pure _
      | cons token rest =>
          simp only [List.head?_cons, Reader.program]
          by_cases isFunction : token.literal = "FUN"
          · simp only [if_pos isFunction]
            rw [Reader.bind_congr (Reader.definition_function isFunction), Reader.bind_assoc]
            refine (ends_function covers).bind fun first rest' fewer => ?_
            exact (induction (by omega)).bind fun others _ _ => ends_pure _
          by_cases isGlobal : ["VAR", "VAL", "LIST"].contains token.literal = true
          · simp only [if_neg isFunction, if_pos isGlobal]
            rw [Reader.bind_congr (Reader.definition_global isGlobal), Reader.bind_assoc]
            refine (ends_global covers).bind fun first rest' fewer => ?_
            exact (induction (by omega)).bind fun others _ _ => ends_pure _
          · simp only [if_neg isFunction, if_neg isGlobal]
            rw [Reader.bind_of_fail (Reader.definition_none isFunction isGlobal)]
            exact ends_fail _

end Definitions

end Descent

end Procedural
