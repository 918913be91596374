import Procedural.Proofs.Reader.Completeness

/-!
# What a failed reader has taken can be continued

Where a reader fails, the tokens that it took are the beginning of some phrase.  The
continuation is built part by part: the part that failed is completed, and each part
that would follow is filled with a sample.
-/

namespace Procedural

open Grammar

/-- A name that is no keyword. -/
def Token.sample : Token :=
  ⟨.identifier, "x", 0⟩

/-- A token with given characters. -/
def Token.mark (literal : String) : Token :=
  ⟨.operator, literal, 0⟩

namespace Grammar

variable {α β : Type}

/-- A phrase, and behind it a phrase that may depend on the value of the first. -/
def Then (first : List Token → α → Prop) (later : α → List Token → β → Prop)
    (tokens : List Token) (value : β) : Prop :=
  ∃ taken more middle, tokens = taken ++ more ∧ first taken middle ∧ later middle more value

/-- One token with given characters. -/
def IsSymbol (literal : String) (tokens : List Token) (token : Token) : Prop :=
  tokens = [token] ∧ token.literal = literal

/-- No tokens, and a given value. -/
def IsNothing (expected : α) (tokens : List Token) (value : α) : Prop :=
  tokens = [] ∧ value = expected

theorem isIdentifier_sample : IsIdentifier [.sample] "x" :=
  @IsIdentifier.mk .sample rfl

theorem isTypedName_sample : IsTypedName [.sample, .mark ":", .sample] ("x", "x") :=
  @IsTypedName.mk .sample (.mark ":") .sample rfl rfl rfl

theorem phrase_sample (levels : List Level) :
    Phrase levels [.sample] (.access (.at 0) "x") := by
  induction levels with
  | nil => exact @Phrase.access .sample ⟨rfl, rfl, by decide⟩
  | cons level tighter induction => exact .tighter induction

end Grammar

namespace Reader

variable {α β : Type}

/-- Phrases exist, and where the reader fails, it has taken the beginning of one. -/
structure Viable (reader : Reader α) (phrase : List Token → α → Prop) : Prop where
  exists_phrase : ∃ tokens value, phrase tokens value
  continues : ∀ tokens why rest, reader tokens = .fail why rest →
    ∃ taken more value, tokens = taken ++ rest ∧ phrase (taken ++ more) value

section Rules

variable {reader : Reader α} {next : α → Reader β} {phrase phrase' : List Token → α → Prop}
variable {later : α → List Token → β → Prop}

theorem Viable.weaken (viable : Viable reader phrase)
    (weaker : ∀ tokens value, phrase tokens value → phrase' tokens value) :
    Viable reader phrase' := by
  constructor
  · obtain ⟨tokens, value, derived⟩ := viable.exists_phrase
    exact ⟨tokens, value, weaker _ _ derived⟩
  · intro tokens why rest failed
    obtain ⟨taken, more, value, split, derived⟩ := viable.continues _ _ _ failed
    exact ⟨taken, more, value, split, weaker _ _ derived⟩

theorem viable_pure (value : α) : Viable (pure value) (IsNothing value) :=
  ⟨⟨[], value, rfl, rfl⟩, fun _ _ _ failed => nomatch failed⟩

theorem viable_symbol (literal context : String) :
    Viable (symbol literal context) (IsSymbol literal) := by
  refine ⟨⟨_, .mark literal, rfl, rfl⟩, ?_⟩
  intro tokens why rest failed
  refine ⟨[], [.mark literal], .mark literal, ?_, rfl, rfl⟩
  cases tokens with
  | nil =>
      cases failed
      rfl
  | cons token tokens =>
      simp only [symbol] at failed
      split at failed <;> cases failed
      rfl

theorem sound_symbol (literal context : String) :
    Sound (symbol literal context) (IsSymbol literal) := by
  intro tokens token rest read
  obtain ⟨rfl, spelled⟩ := symbol_eq_ok.mp read
  exact ⟨[token], rfl, rfl, spelled⟩

theorem viable_identifier (context : String) : Viable (identifier context) IsIdentifier := by
  refine ⟨⟨_, _, isIdentifier_sample⟩, ?_⟩
  intro tokens why rest failed
  refine ⟨[], [.sample], "x", ?_, isIdentifier_sample⟩
  cases tokens with
  | nil =>
      cases failed
      rfl
  | cons token tokens =>
      simp only [identifier] at failed
      split at failed <;> cases failed
      rfl

theorem Viable.bind (viable : Viable reader phrase) (sound : Sound reader phrase)
    (viableNext : ∀ value, Viable (next value) (later value)) :
    Viable (reader >>= next) (Then phrase later) := by
  have completed {taken : List Token} {value : α} (derived : phrase taken value) :
      ∃ more result, Then phrase later (taken ++ more) result := by
    obtain ⟨more, result, derivedLater⟩ := (viableNext value).exists_phrase
    exact ⟨more, result, taken, more, value, rfl, derived, derivedLater⟩
  constructor
  · obtain ⟨taken, value, derived⟩ := viable.exists_phrase
    obtain ⟨more, result, whole⟩ := completed derived
    exact ⟨_, result, whole⟩
  · intro tokens why rest failed
    rcases bind_eq_fail failed with failedFirst | ⟨value, middle, read, failedNext⟩
    · obtain ⟨taken, more, value, split, derived⟩ := viable.continues _ _ _ failedFirst
      obtain ⟨others, result, whole⟩ := completed derived
      exact ⟨taken, more ++ others, result, split, by rwa [List.append_assoc] at whole⟩
    · obtain ⟨taken, rfl, derived⟩ := sound _ _ _ read
      obtain ⟨others, more, result, rfl, derivedLater⟩ :=
        (viableNext value).continues _ _ _ failedNext
      refine ⟨taken ++ others, more, result, by simp, taken, others ++ more, value, ?_, derived,
        derivedLater⟩
      rw [List.append_assoc]

theorem Viable.map (viable : Viable reader phrase) (change : α → β)
    {changed : List Token → β → Prop}
    (derived : ∀ tokens value, phrase tokens value → changed tokens (change value)) :
    Viable (change <$> reader) changed := by
  constructor
  · obtain ⟨tokens, value, exact⟩ := viable.exists_phrase
    exact ⟨tokens, change value, derived _ _ exact⟩
  · intro tokens why rest failed
    rcases bind_eq_fail failed with failedFirst | ⟨_, _, _, finished⟩
    · obtain ⟨taken, more, value, split, exact⟩ := viable.continues _ _ _ failedFirst
      exact ⟨taken, more, change value, split, derived _ _ exact⟩
    · cases finished

/-- A continuation can avoid words that the tokens avoid, if some phrase starts with a name. -/
theorem Viable.avoids (viable : Viable reader phrase) {later : List Token} {value : α}
    (sample : phrase (.sample :: later) value) {words : List String} (unknown : "x" ∉ words)
    {tokens rest : List Token} {why : Obstacle} (failed : reader tokens = .fail why rest)
    (avoided : StartsWithNone words tokens) :
    ∃ taken more value, tokens = taken ++ rest ∧ phrase (taken ++ more) value ∧
      StartsWithNone words (taken ++ more) := by
  obtain ⟨taken, more, found, rfl, derived⟩ := viable.continues _ _ _ failed
  cases taken with
  | nil =>
      refine ⟨[], .sample :: later, value, rfl, sample, ?_⟩
      intro token head
      cases head
      exact unknown
  | cons token taken =>
      refine ⟨token :: taken, more, found, rfl, derived, ?_⟩
      intro first head
      exact avoided first head

theorem Viable.ifAccept {literal : String} {yes no : Reader α}
    (viableYes : ∀ token : Token, token.literal = literal →
      Viable yes fun taken value => phrase (token :: taken) value)
    (viableNo : Viable no phrase) : Viable (do if ← accept literal then yes else no) phrase := by
  refine ⟨viableNo.exists_phrase, ?_⟩
  intro tokens why rest failed
  rcases ifAccept_eq_fail failed with ⟨token, tail, rfl, spelled, failedYes⟩ | ⟨_, failedNo⟩
  · obtain ⟨taken, more, value, rfl, derived⟩ :=
      (viableYes token spelled).continues _ _ _ failedYes
    exact ⟨token :: taken, more, value, rfl, derived⟩
  · exact viableNo.continues _ _ _ failedNo

theorem Viable.introduced (viable : Viable reader phrase) (literal : String) :
    Viable (introduced literal reader) fun taken value =>
      Introduced literal phrase taken value ∧ value.isSome = true := by
  constructor
  · obtain ⟨tokens, value, derived⟩ := viable.exists_phrase
    exact ⟨.mark literal :: tokens, some value, .some rfl derived, rfl⟩
  · intro tokens why rest failed
    rcases ifAccept_eq_fail failed with ⟨token, tail, rfl, spelled, failedItem⟩ | ⟨_, none⟩
    · rcases bind_eq_fail failedItem with failedValue | ⟨_, _, _, finished⟩
      · obtain ⟨taken, more, value, rfl, derived⟩ := viable.continues _ _ _ failedValue
        exact ⟨token :: taken, more, some value, rfl, .some spelled derived, rfl⟩
      · cases finished
    · cases none

theorem Viable.maybeIntroduced (viable : Viable reader phrase) (literal : String) :
    Viable (Reader.introduced literal reader) (Introduced literal phrase) :=
  (viable.introduced literal).weaken fun _ _ derived => derived.1

end Rules

section Items

variable {item : Reader α} {phrase : List Token → α → Prop}

theorem Viable.furtherItems (viable : Viable item phrase) (sound : Sound item phrase)
    (budget : Nat) : Viable (furtherItems item budget) fun taken values =>
      ∃ parts : List (List Token × α), (∀ part ∈ parts, phrase part.1 part.2) ∧
        JoinedFurther (parts.map Prod.fst) taken ∧ parts.map Prod.snd = values := by
  refine ⟨⟨[], [], [], by simp, .nil, rfl⟩, ?_⟩
  induction budget with
  | zero =>
      intro tokens why rest failed
      cases failed
  | succ budget induction =>
      intro tokens why rest failed
      rcases ifAccept_eq_fail failed with ⟨comma, tail, rfl, spelled, failedItems⟩ | ⟨_, none⟩
      · rcases bind_eq_fail failedItems with failedItem | ⟨value, middle, read, failedLater⟩
        · obtain ⟨taken, more, value, rfl, derived⟩ := viable.continues _ _ _ failedItem
          refine ⟨comma :: taken, more, _, rfl, [(taken ++ more, value)], by simpa using derived,
            ?_, rfl⟩
          simpa using JoinedFurther.cons spelled .nil
        · obtain ⟨taken, rfl, derived⟩ := sound _ _ _ read
          rcases bind_eq_fail failedLater with failedFurther | ⟨_, _, _, finished⟩
          · obtain ⟨others, more, _, rfl, parts, all, joined, rfl⟩ := induction _ _ _ failedFurther
            refine ⟨comma :: (taken ++ others), more, _, by simp, (taken, value) :: parts,
              List.forall_mem_cons.mpr ⟨derived, all⟩, ?_, rfl⟩
            simpa using JoinedFurther.cons spelled joined
          · cases finished
      · cases none

theorem Viable.items (viable : Viable item phrase) (sound : Sound item phrase) (budget : Nat) :
    Viable (items item budget) fun taken values => Items phrase taken values ∧ values ≠ [] := by
  have further := viable.bind sound fun value =>
    (viable.furtherItems sound budget).bind (sound.furtherItems budget) fun values =>
      viable_pure (value :: values)
  refine further.weaken ?_
  rintro _ _ ⟨taken, _, value, rfl, derived, others, _, _, rfl, ⟨parts, all, joined, rfl⟩, rfl,
    rfl⟩
  refine ⟨⟨(taken, value) :: parts, List.forall_mem_cons.mpr ⟨derived, all⟩, ?_, rfl⟩, by simp⟩
  rw [List.append_nil]
  exact .cons joined

theorem Viable.itemsUnless (viable : Viable item phrase) (sound : Sound item phrase)
    {closing : String} (different : "x" ≠ closing) {later : List Token} {value : α}
    (sample : phrase (.sample :: later) value) (budget : Nat) :
    Viable (itemsUnless closing item budget) fun taken values =>
      Items phrase taken values ∧ StartsWithNone [closing] taken := by
  have viableItems := viable.items sound budget
  have one : Items phrase (.sample :: later) [value] :=
    ⟨[(.sample :: later, value)], by simpa using sample, by simpa using Joined.cons .nil, rfl⟩
  refine ⟨⟨[], [], ⟨[], by simp, .nil, rfl⟩, by simp [StartsWithNone]⟩, ?_⟩
  intro tokens why rest failed
  rcases ifSees_eq_fail failed with none | ⟨notClosing, failedItems⟩
  · cases none
  · have avoided : StartsWithNone [closing] tokens :=
      fun token head => by simpa using notClosing token head
    obtain ⟨taken, more, values, split, ⟨derived, _⟩, starts⟩ :=
      viableItems.avoids ⟨one, by simp⟩ (by simpa using different) failedItems avoided
    exact ⟨taken, more, values, split, derived, starts⟩

end Items

section Expressions

variable {nested : Reader Expr} (viable : Viable nested IsExpr) (sound : Sound nested IsExpr)

include viable sound

theorem Viable.closeGroup {opening : Token} (isOpening : opening.IsOpening) :
    Viable (closeGroup nested opening.offset) fun taken expr =>
      Phrase [] (opening :: taken) expr := by
  have parts := viable.bind sound fun inner =>
    (viable_symbol ")" "to close group").bind (sound_symbol _ _) fun _ =>
      viable_pure (Expr.group (.at opening.offset) inner)
  refine parts.weaken ?_
  rintro _ _ ⟨tokens, _, inner, rfl, derived, _, _, closing, rfl, ⟨rfl, closed⟩, rfl, rfl⟩
  exact .group isOpening derived closed

theorem Viable.arguments {name opening : Token} (isName : name.IsName)
    (opened : opening.literal = "(") (budget : Nat) :
    Viable
      (do
        let arguments ← Reader.itemsUnless ")" nested budget
        let _ ← symbol ")" s!"after arguments to '{name.literal}'"
        pure (.call (.at name.offset) name.literal arguments))
      fun taken expr => Phrase [] (name :: opening :: taken) expr := by
  have parts := (viable.itemsUnless sound (by decide) (phrase_sample _) budget).bind
    (sound.itemsUnless ")" budget) fun arguments =>
      (viable_symbol ")" s!"after arguments to '{name.literal}'").bind (sound_symbol _ _) fun _ =>
        viable_pure (Expr.call (.at name.offset) name.literal arguments)
  refine parts.weaken ?_
  rintro _ _ ⟨tokens, _, _, rfl, ⟨⟨parts, all, joined, rfl⟩, starts⟩, _, _, closing, rfl,
    ⟨rfl, closed⟩, rfl, rfl⟩
  exact .call isName opened all joined starts closed

theorem Viable.index {name : Token} (isName : name.IsName) :
    Viable
      (do
        match ← Reader.introduced "[" nested with
        | none => pure (.access (.at name.offset) name.literal)
        | some index =>
            let _ ← symbol "]" "after index"
            pure (.element (.at name.offset) name.literal index))
      fun taken expr => Phrase [] (name :: taken) expr := by
  have parts := (viable.maybeIntroduced "[").bind (sound.introduced "[") fun index =>
    show Viable
        (match index with
        | none => pure (.access (.at name.offset) name.literal)
        | some index => do
            let _ ← symbol "]" "after index"
            pure (.element (.at name.offset) name.literal index))
        (index.elim (IsNothing (Expr.access (.at name.offset) name.literal)) fun index =>
          Then (IsSymbol "]") fun _ => IsNothing (.element (.at name.offset) name.literal index))
      from match index with
      | none => viable_pure _
      | some index => (viable_symbol "]" "after index").bind (sound_symbol _ _) fun _ =>
          viable_pure _
  refine parts.weaken ?_
  rintro _ _ ⟨_, _, _, rfl, introduced, rest⟩
  cases introduced with
  | none =>
      obtain ⟨rfl, rfl⟩ := rest
      exact .access isName
  | some opened derived =>
      obtain ⟨_, _, closing, rfl, ⟨rfl, closed⟩, rfl, rfl⟩ := rest
      exact .element isName opened derived closed

theorem Viable.afterName {name : Token} (isName : name.IsName) (budget : Nat) :
    Viable (afterName nested budget name.offset name.literal) fun taken expr =>
      Phrase [] (name :: taken) expr :=
  .ifAccept (fun _ opened => viable.arguments sound isName opened budget)
    (viable.index sound isName)

theorem Viable.primary (budget : Nat) : Viable (primary nested budget) (Phrase []) := by
  have atOnce {tokens rest : List Token} (same : tokens = rest) :
      ∃ taken more expr, tokens = taken ++ rest ∧ Phrase [] (taken ++ more) expr :=
    ⟨[], [.sample], _, same, phrase_sample []⟩
  refine ⟨⟨_, _, phrase_sample []⟩, ?_⟩
  intro tokens why rest failed
  unfold Reader.primary at failed
  split at failed
  · cases failed
    exact atOnce rfl
  next token tail =>
    split at failed
    · split at failed <;> cases failed
      exact atOnce rfl
    next notLiteral =>
      have notLiteral : token.isLiteral = false := by simpa using notLiteral
      split at failed
      next opened =>
        obtain ⟨taken, more, expr, rfl, derived⟩ :=
          (viable.closeGroup sound ⟨opened, notLiteral⟩).continues _ _ _ failed
        exact ⟨token :: taken, more, expr, rfl, derived⟩
      next notOpening =>
        split at failed
        next isIdentifier =>
          obtain ⟨taken, more, expr, rfl, derived⟩ :=
            (viable.afterName sound ⟨isIdentifier, notLiteral, notOpening⟩ budget).continues
              _ _ _ failed
          exact ⟨token :: taken, more, expr, rfl, derived⟩
        · cases failed
          exact atOnce rfl

end Expressions

section Operands

variable {operand : Reader Expr} {level : Level} {tighter : List Level}
variable (viable : Viable operand (Phrase tighter)) (sound : Sound operand (Phrase tighter))

include viable sound

theorem Viable.furtherOperands (budget : Nat) :
    ∀ {taken : List Token} {left : Expr}, Phrase (level :: tighter) taken left →
      Viable (furtherOperands level operand budget left) fun more expr =>
        Phrase (level :: tighter) (taken ++ more) expr := by
  induction budget with
  | zero =>
      intro taken left derived
      refine ⟨⟨[], left, by simpa using derived⟩, ?_⟩
      intro tokens why rest failed
      cases failed
  | succ budget induction =>
      intro taken left derived
      refine ⟨⟨[], left, by simpa using derived⟩, ?_⟩
      intro tokens why rest failed
      rcases bind_eq_fail failed with refused | ⟨found, middle, readOperator, failedMore⟩
      · unfold operator at refused
        split at refused
        · cases refused
        · split at refused <;> cases refused
      unfold operator at readOperator
      split at readOperator
      · cases readOperator
        cases failedMore
      next token tail =>
        split at readOperator
        next op spelled =>
          obtain ⟨rfl, rfl⟩ := Outcome.ok.inj readOperator
          rcases bind_eq_fail failedMore with failedRight | ⟨right, _, readRight, failedLater⟩
          · obtain ⟨others, more, right, rfl, derivedRight⟩ := viable.continues _ _ _ failedRight
            exact ⟨token :: others, more, .binary (.at left.offset) op left right, rfl,
              .binary derived spelled derivedRight⟩
          · obtain ⟨rightTokens, rfl, derivedRight⟩ := sound _ _ _ readRight
            have joined := Phrase.binary derived spelled derivedRight
            obtain ⟨others, more, expr, rfl, derivedLater⟩ :=
              (induction joined).continues _ _ _ failedLater
            exact ⟨token :: (rightTokens ++ others), more, expr, by simp,
              by simpa using derivedLater⟩
        next =>
          obtain ⟨rfl, rfl⟩ := Outcome.ok.inj readOperator
          cases failedMore

theorem Viable.operands (budget : Nat) :
    Viable (operands level operand budget) (Phrase (level :: tighter)) := by
  refine ⟨⟨_, _, phrase_sample _⟩, ?_⟩
  intro tokens why rest failed
  rcases bind_eq_fail failed with failedLeft | ⟨left, _, readLeft, failedMore⟩
  · obtain ⟨taken, more, expr, split, derived⟩ := viable.continues _ _ _ failedLeft
    exact ⟨taken, more, expr, split, .tighter derived⟩
  · obtain ⟨taken, rfl, derived⟩ := sound _ _ _ readLeft
    obtain ⟨others, more, expr, rfl, derivedMore⟩ :=
      (viable.furtherOperands sound budget (.tighter derived)).continues _ _ _ failedMore
    exact ⟨taken ++ others, more, expr, by simp, by simpa using derivedMore⟩

end Operands

theorem viable_expression (budget : Nat) : Viable (expression budget) IsExpr := by
  induction budget with
  | zero =>
      refine ⟨⟨_, _, phrase_sample _⟩, ?_⟩
      intro tokens why rest failed
      cases failed
      exact ⟨[], [.sample], _, rfl, phrase_sample _⟩
  | succ budget induction =>
      have sound := (sound_expression budget).primary (budget + 1)
      have tier (levels : List Level) : Viable
          (tier (primary (expression budget) (budget + 1)) (budget + 1) levels)
          (Phrase levels) := by
        induction levels with
        | nil => exact induction.primary (sound_expression budget) (budget + 1)
        | cons level tighter viable =>
            exact viable.operands (sound.tier (budget + 1) tighter) (budget + 1)
      exact tier Level.all

theorem isStmt_sample : IsStmt [.sample, .mark ";"] (.expression (.access (.at 0) "x")) :=
  .expression (by simp [StartsWithNone, Token.sample, statementWords]) (phrase_sample _) rfl

theorem Viable.block {statement : Reader Stmt} (viable : Viable statement IsStmt)
    (sound : Sound statement IsStmt) {closers : List String} (unknown : "x" ∉ closers)
    (budget : Nat) : Viable (block statement closers budget) (IsBlock closers) := by
  refine ⟨⟨[], [], .nil⟩, ?_⟩
  induction budget with
  | zero =>
      intro tokens why rest failed
      cases failed
  | succ budget induction =>
      intro tokens why rest failed
      unfold Reader.block at failed
      split at failed
      · cases failed
      next token tail =>
        split at failed
        · cases failed
        next notCloser =>
          have avoided : StartsWithNone closers (token :: tail) := by
            intro first head
            cases head
            simpa using notCloser
          rcases bind_eq_fail failed with failedFirst | ⟨stmt, _, readFirst, failedMore⟩
          · obtain ⟨taken, more, stmt, split, derived, avoids⟩ :=
              viable.avoids isStmt_sample unknown failedFirst avoided
            refine ⟨taken, more, [stmt], split, ?_⟩
            simpa using IsBlock.cons avoids derived .nil
          · obtain ⟨taken, split, derived⟩ := sound _ _ _ readFirst
            rcases bind_eq_fail failedMore with failedLater | ⟨_, _, _, finished⟩
            · obtain ⟨others, more, stmts, rfl, derivedLater⟩ := induction _ _ _ failedLater
              refine ⟨taken ++ others, more, stmt :: stmts, by simp [split], ?_⟩
              rw [List.append_assoc]
              refine .cons ?_ derived derivedLater
              intro first head
              obtain ⟨initial, taken, rfl⟩ :=
                List.exists_cons_of_ne_nil (IsStmt.nonempty derived)
              cases head
              cases split
              exact avoided _ rfl
            · cases finished

section Statements

variable {nested : Reader Expr} {body : Reader (List Stmt)} {keyword : Token}
variable (viable : Viable nested IsExpr) (sound : Sound nested IsExpr)

include viable sound

theorem Viable.declaration (spelled : keyword.literal = "LET") :
    Viable (declaration nested) fun taken stmt => IsStmt (keyword :: taken) stmt := by
  -- What follows the name may be completed before the token of the name is known.
  have afterName (name : String) :
      Viable
        (do
          let typeName ← Reader.introduced ":" (identifier s!"as type of '{name}'")
          let value ← Reader.introduced "=" nested
          if typeName.isNone && value.isNone then
            missing (.typeOrValue name)
          else
            let _ ← symbol ";" "after declaration"
            pure (.declaration name typeName value))
        fun taken stmt => ∀ token : Token, token.kind = .identifier → token.literal = name →
          IsStmt (keyword :: token :: taken) stmt := by
    have typed : Introduced ":" IsIdentifier [.mark ":", .sample] (some "x") :=
      .some rfl isIdentifier_sample
    have sample : ∀ token : Token, token.kind = .identifier → token.literal = name →
        IsStmt (keyword :: token :: [.mark ":", .sample, .mark ";"])
          (.declaration name (some "x") none) := by
      rintro token isIdentifier rfl
      exact .declaration spelled isIdentifier typed .none rfl rfl
    refine ⟨⟨_, _, sample⟩, ?_⟩
    intro tokens why rest failed
    rcases bind_eq_fail failed with failedType | ⟨typeName, _, readType, failedValue⟩
    · obtain ⟨taken, more, typeName, split, derivedType, isSome⟩ :=
        ((viable_identifier _).introduced ":").continues _ _ _ failedType
      refine ⟨taken, more ++ [.mark ";"], .declaration name typeName none, split, ?_⟩
      rintro token isIdentifier rfl
      simpa using IsStmt.declaration spelled isIdentifier derivedType .none
        (by cases typeName <;> simp_all) rfl
    obtain ⟨typeTokens, rfl, derivedType⟩ := (sound_identifier _).introduced ":" _ _ _ readType
    rcases bind_eq_fail failedValue with failedIntroduced | ⟨value, _, readValue, failedEnd⟩
    · obtain ⟨taken, more, value, rfl, derivedValue, isSome⟩ :=
        (viable.introduced "=").continues _ _ _ failedIntroduced
      refine ⟨typeTokens ++ taken, more ++ [.mark ";"], .declaration name typeName value,
        by simp, ?_⟩
      rintro token isIdentifier rfl
      simpa using IsStmt.declaration spelled isIdentifier derivedType derivedValue
        (by cases value <;> simp_all) rfl
    obtain ⟨valueTokens, rfl, derivedValue⟩ := sound.introduced "=" _ _ _ readValue
    split at failedEnd
    next untyped =>
      simp only [Bool.and_eq_true, Option.isNone_iff_eq_none] at untyped
      obtain ⟨rfl, rfl⟩ := untyped
      cases derivedType
      cases derivedValue
      cases failedEnd
      exact ⟨[], _, _, rfl, sample⟩
    next typed =>
      rcases bind_eq_fail failedEnd with failedSemicolon | ⟨_, _, _, finished⟩
      · obtain ⟨taken, more, _, rfl, semicolon, ended⟩ :=
          (viable_symbol _ _).continues _ _ _ failedSemicolon
        refine ⟨typeTokens ++ (valueTokens ++ taken), more, .declaration name typeName value,
          by simp, ?_⟩
        rintro token isIdentifier rfl
        have whole := IsStmt.declaration spelled isIdentifier derivedType derivedValue
          (by simpa only [Bool.not_eq_true] using typed) ended
        simpa [← semicolon] using whole
      · cases finished
  refine ((viable_identifier "after 'LET'").bind (sound_identifier _) afterName).weaken ?_
  rintro _ _ ⟨_, _, _, rfl, ⟨isIdentifier⟩, derived⟩
  exact derived _ isIdentifier rfl

theorem Viable.result (spelled : keyword.literal = "RETURN") :
    Viable (result nested) fun taken stmt => IsStmt (keyword :: taken) stmt := by
  have parts := viable.bind sound fun value =>
    (viable_symbol ";" "after return value").bind (sound_symbol _ _) fun _ =>
      viable_pure (Stmt.result value)
  refine parts.weaken ?_
  rintro _ _ ⟨_, _, _, rfl, derived, _, _, _, rfl, ⟨rfl, ended⟩, rfl, rfl⟩
  exact .result spelled derived ended

theorem Viable.simple : Viable (simple nested) fun taken stmt =>
    StartsWithNone statementWords taken → IsStmt taken stmt := by
  have parts : Viable (Reader.simple nested) (Then IsExpr fun first =>
      Then (Introduced "=" IsExpr) fun value => Then (IsSymbol ";") fun _ =>
        IsNothing (value.elim (Stmt.expression first) (Stmt.assignment first))) := by
    refine viable.bind sound fun first => ?_
    refine (viable.maybeIntroduced "=").bind (sound.introduced "=") fun value => ?_
    cases value with
    | none =>
        exact (viable_symbol ";" "after expression").bind (sound_symbol _ _) fun _ =>
          viable_pure _
    | some value =>
        exact (viable_symbol ";" "after assignment").bind (sound_symbol _ _) fun _ =>
          viable_pure _
  refine parts.weaken ?_
  rintro _ _ ⟨tokens, _, _, rfl, derived, _, _, _, rfl, introduced, _, _, _, rfl, ⟨rfl, ended⟩,
    rfl, rfl⟩ different
  have avoids : StartsWithNone statementWords tokens := by
    obtain ⟨first, tokens, rfl⟩ := List.exists_cons_of_ne_nil derived.nonempty
    exact different
  cases introduced with
  | none => exact .expression avoids derived ended
  | some spelled derivedValue => exact .assignment avoids derived spelled derivedValue ended

section Blocks

variable (viableBody : Viable body (IsBlock caseClosers))
variable (soundBody : Sound body (IsBlock caseClosers))

include viableBody soundBody

theorem Viable.cases (budget : Nat) : Viable (cases nested body budget) IsCases := by
  induction budget with
  | zero =>
      refine (viable_pure []).weaken ?_
      rintro _ _ ⟨rfl, rfl⟩
      exact .nil
  | succ budget induction =>
      refine .ifAccept (fun keyword spelled => ?_) ((viable_pure []).weaken ?_)
      · have parts := viable.bind sound fun value =>
          (viable_symbol ":" "after case value").bind (sound_symbol _ _) fun _ =>
            viableBody.bind soundBody fun stmts =>
              induction.bind (sound.cases soundBody budget) fun later =>
                viable_pure (Case.mk (some value) stmts :: later)
        refine parts.weaken ?_
        rintro _ _ ⟨_, _, _, rfl, derived, _, _, _, rfl, ⟨rfl, colonSpelled⟩, _, _, _, rfl,
          derivedBody, _, _, _, rfl, derivedLater, rfl, rfl⟩
        simpa using IsCases.cons spelled derived colonSpelled derivedBody derivedLater
      · rintro _ _ ⟨rfl, rfl⟩
        exact .nil

theorem Viable.switch (spelled : keyword.literal = "SWITCH") (budget : Nat) :
    Viable (switch nested body budget) fun taken stmt => IsStmt (keyword :: taken) stmt := by
  have parts := viable.bind sound fun condition =>
    (viable.cases sound viableBody soundBody budget).bind (sound.cases soundBody budget)
      fun valued => (viable_symbol "DEFAULT" "in switch").bind (sound_symbol _ _) fun _ =>
        viableBody.bind soundBody fun stmts =>
          (viable_symbol "END" "after switch").bind (sound_symbol _ _) fun _ =>
            viable_pure (Stmt.switch condition (valued ++ [.mk none stmts]))
  refine parts.weaken ?_
  rintro _ _ ⟨_, _, _, rfl, derived, _, _, _, rfl, derivedCases, _, _, _, rfl,
    ⟨rfl, defaultSpelled⟩, _, _, _, rfl, derivedBody, _, _, _, rfl, ⟨rfl, closed⟩, rfl, rfl⟩
  exact .switch spelled derived derivedCases defaultSpelled derivedBody closed rfl

end Blocks

variable (viableBody : Viable body (IsBlock blockClosers))
variable (soundBody : Sound body (IsBlock blockClosers))

include viableBody soundBody

theorem Viable.branch (spelled : keyword.literal = "IF") :
    Viable (branch nested body) fun taken stmt => IsStmt (keyword :: taken) stmt := by
  have parts := viable.bind sound fun condition =>
    (viable_symbol "DO" "after if condition").bind (sound_symbol _ _) fun _ =>
      viableBody.bind soundBody fun thenBlock =>
        (viableBody.maybeIntroduced "ELSE").bind (soundBody.introduced "ELSE") fun elseBlock =>
          (viable_symbol "END" "after if statement").bind (sound_symbol _ _) fun _ =>
            viable_pure (Stmt.branch condition thenBlock (elseBlock.getD []))
  refine parts.weaken ?_
  rintro _ _ ⟨_, _, _, rfl, derived, _, _, _, rfl, ⟨rfl, opened⟩, _, _, _, rfl, derivedThen, _,
    _, _, rfl, introduced, _, _, _, rfl, ⟨rfl, closed⟩, rfl, rfl⟩
  cases introduced with
  | none => exact .branch spelled derived opened derivedThen closed
  | some middleSpelled derivedElse =>
      have whole := IsStmt.branchElse spelled derived opened derivedThen middleSpelled derivedElse
        closed
      simpa using whole

theorem Viable.loop (spelled : keyword.literal = "WHILE") :
    Viable (loop nested body) fun taken stmt => IsStmt (keyword :: taken) stmt := by
  have parts := viable.bind sound fun condition =>
    (viable_symbol "DO" "after while condition").bind (sound_symbol _ _) fun _ =>
      viableBody.bind soundBody fun stmts =>
        (viable_symbol "END" "after while body").bind (sound_symbol _ _) fun _ =>
          viable_pure (Stmt.loop condition stmts)
  refine parts.weaken ?_
  rintro _ _ ⟨_, _, _, rfl, derived, _, _, _, rfl, ⟨rfl, opened⟩, _, _, _, rfl, derivedBody, _, _,
    _, rfl, ⟨rfl, closed⟩, rfl, rfl⟩
  exact .loop spelled derived opened derivedBody closed

end Statements

theorem viable_statement (budget : Nat) : Viable (statement budget) IsStmt := by
  induction budget with
  | zero =>
      refine ⟨⟨_, _, isStmt_sample⟩, ?_⟩
      intro tokens why rest failed
      cases failed
      exact ⟨[], _, _, rfl, isStmt_sample⟩
  | succ budget induction =>
      have nested := viable_expression budget
      have sound := sound_expression budget
      have soundStmt := sound_statement budget
      have body {closers : List String} (unknown : "x" ∉ closers) :=
        induction.block soundStmt unknown budget
      have soundBody (closers : List String) := soundStmt.block closers budget
      have after {reader : Reader Stmt} {keyword : Token} {tail rest : List Token}
          {why : Obstacle} (viable : Viable reader fun taken stmt => IsStmt (keyword :: taken) stmt)
          (failed : reader tail = .fail why rest) :
          ∃ taken more stmt, keyword :: tail = taken ++ rest ∧ IsStmt (taken ++ more) stmt := by
        obtain ⟨taken, more, stmt, rfl, derived⟩ := viable.continues _ _ _ failed
        exact ⟨keyword :: taken, more, stmt, rfl, derived⟩
      refine ⟨⟨_, _, isStmt_sample⟩, ?_⟩
      intro tokens why rest failed
      rcases ifAccept_eq_fail failed with ⟨_, _, rfl, spelled, failedLet⟩ | ⟨notLet, failed₁⟩
      · exact after (nested.declaration sound spelled) failedLet
      rcases ifAccept_eq_fail failed₁ with ⟨_, _, rfl, spelled, failedSwitch⟩ | ⟨notSwitch, failed₂⟩
      · exact after (nested.switch sound (body (by decide)) (soundBody _) spelled budget)
          failedSwitch
      rcases ifAccept_eq_fail failed₂ with ⟨_, _, rfl, spelled, failedIf⟩ | ⟨notIf, failed₃⟩
      · exact after (nested.branch sound (body (by decide)) (soundBody _) spelled) failedIf
      rcases ifAccept_eq_fail failed₃ with ⟨_, _, rfl, spelled, failedWhile⟩ | ⟨notWhile, failed₄⟩
      · exact after (nested.loop sound (body (by decide)) (soundBody _) spelled) failedWhile
      rcases ifAccept_eq_fail failed₄ with ⟨_, _, rfl, spelled, failedReturn⟩ | ⟨notReturn, failed₅⟩
      · exact after (nested.result sound spelled) failedReturn
      have avoided : StartsWithNone statementWords tokens := by
        intro token head
        simp [statementWords, notLet token head, notSwitch token head, notIf token head,
          notWhile token head, notReturn token head]
      have simple := (viable_expression (budget + 1)).simple (sound_expression (budget + 1))
      obtain ⟨taken, more, stmt, split, derived, avoids⟩ :=
        simple.avoids (fun _ => isStmt_sample) (by decide) failed₅ avoided
      exact ⟨taken, more, stmt, split, derived avoids⟩

section Definitions

theorem viable_typedName (context : String) : Viable (typedName context) IsTypedName := by
  have parts := (viable_identifier context).bind (sound_identifier _) fun name =>
    (viable_symbol ":" s!"before type of '{name}'").bind (sound_symbol _ _) fun _ =>
      (viable_identifier s!"as type of '{name}'").bind (sound_identifier _) fun typeName =>
        viable_pure (name, typeName)
  refine parts.weaken ?_
  rintro _ _ ⟨_, _, _, rfl, ⟨isName⟩, _, _, _, rfl, ⟨rfl, spelled⟩, _, _, _, rfl, ⟨isType⟩, rfl,
    rfl⟩
  exact .mk isName spelled isType

theorem bind_finishGlobal (reader : Reader α) (next : α → Reader Global) :
    finishGlobal (reader >>= next) = reader >>= fun value => finishGlobal (next value) := by
  funext tokens
  change Reader.bind (Reader.bind reader next) _ tokens = Reader.bind reader _ tokens
  simp only [Reader.bind]
  cases reader tokens <;> rfl

/-- The end of a global variable. -/
theorem viable_finishGlobal (item : Global) :
    Viable (finishGlobal (pure item)) (Then (IsSymbol ";") fun _ => IsNothing item) :=
  (viable_symbol ";" "after global declaration").bind (sound_symbol _ _) fun _ => viable_pure item

section Globals

variable {nested : Reader Expr} (viable : Viable nested IsExpr) (sound : Sound nested IsExpr)
variable {keyword : Token}

include viable sound

theorem Viable.listGlobal (spelled : keyword.literal = "LIST") (budget : Nat) :
    Viable (finishGlobal (listGlobal nested budget keyword.offset)) fun taken item =>
      IsGlobal (keyword :: taken) item := by
  simp only [Reader.listGlobal, bind_finishGlobal]
  have parts := (viable_typedName "in list declaration").bind (sound_typedName _) fun name =>
    (viable_symbol "=" "after list name").bind (sound_symbol _ _) fun _ =>
      (viable_symbol "[" "to open list literal").bind (sound_symbol _ _) fun bracket =>
        (viable.items sound budget).bind (sound.items budget) fun elements =>
          (viable_symbol "]" "to close list literal").bind (sound_symbol _ _) fun _ =>
            viable_finishGlobal ⟨name.1, name.2, true,
              some (.list (.at bracket.offset) elements), keyword.offset, none⟩
  refine parts.weaken ?_
  rintro _ _ ⟨_, _, name, rfl, derivedName, _, _, _, rfl, ⟨rfl, equalsSpelled⟩, _, _, bracket, rfl,
    ⟨rfl, opened⟩, _, _, _, rfl, ⟨derived, nonempty⟩, _, _, _, rfl, ⟨rfl, closed⟩, _, _, _, rfl,
    ⟨rfl, ended⟩, rfl, rfl⟩
  simpa using
    IsGlobal.list spelled derivedName equalsSpelled opened derived nonempty closed ended

theorem Viable.mutableGlobal (spelled : keyword.literal = "VAR") :
    Viable (finishGlobal (mutableGlobal nested keyword.offset)) fun taken item =>
      IsGlobal (keyword :: taken) item := by
  simp only [Reader.mutableGlobal, bind_finishGlobal]
  have parts := (viable_typedName "in variable declaration").bind (sound_typedName _) fun name =>
    (viable.maybeIntroduced "=").bind (sound.introduced "=") fun value =>
      viable_finishGlobal ⟨name.1, name.2, true, value, keyword.offset, none⟩
  refine parts.weaken ?_
  rintro _ _ ⟨_, _, name, rfl, derivedName, _, _, _, rfl, derivedValue, _, _, _, rfl, ⟨rfl, ended⟩,
    rfl, rfl⟩
  exact .mutable spelled derivedName derivedValue ended

theorem Viable.immutableGlobal (spelled : keyword.literal = "VAL") :
    Viable (finishGlobal (immutableGlobal nested keyword.offset)) fun taken item =>
      IsGlobal (keyword :: taken) item := by
  simp only [Reader.immutableGlobal, bind_finishGlobal]
  have parts := (viable_typedName "in value declaration").bind (sound_typedName _) fun name =>
    (viable_symbol "=" "after immutable value name").bind (sound_symbol _ _) fun _ =>
      viable.bind sound fun value =>
        viable_finishGlobal ⟨name.1, name.2, false, some value, keyword.offset, none⟩
  refine parts.weaken ?_
  rintro _ _ ⟨_, _, name, rfl, derivedName, _, _, _, rfl, ⟨rfl, equalsSpelled⟩, _, _, _, rfl,
    derived, _, _, _, rfl, ⟨rfl, ended⟩, rfl, rfl⟩
  exact .immutable spelled derivedName equalsSpelled derived ended

end Globals

theorem viable_function {keyword : Token} (spelled : keyword.literal = "FUN") (budget : Nat) :
    Viable (function budget keyword.offset) fun taken item =>
      IsFunction (keyword :: taken) item := by
  have parts := (viable_identifier "after 'FUN'").bind (sound_identifier _) fun name =>
    (viable_symbol "(" "after function name").bind (sound_symbol _ _) fun _ =>
      ((viable_typedName "in parameter list").itemsUnless (sound_typedName _)
          (by decide : "x" ≠ ")") isTypedName_sample budget).bind
        ((sound_typedName _).itemsUnless ")" budget) fun parameters =>
        (viable_symbol ")" "after parameters").bind (sound_symbol _ _) fun _ =>
          ((viable_identifier "as return type").maybeIntroduced ":").bind
            ((sound_identifier _).introduced ":") fun returnType =>
            (viable_symbol "DO" "before function body").bind (sound_symbol _ _) fun _ =>
              ((viable_statement budget).block (sound_statement budget)
                  (by decide : "x" ∉ blockClosers) budget).bind
                ((sound_statement budget).block blockClosers budget) fun body =>
                (viable_symbol "END" "after function body").bind (sound_symbol _ _) fun _ =>
                  viable_pure (Function.mk name (parameters.map Prod.fst)
                    (parameters.map Prod.snd) returnType body keyword.offset none)
  refine parts.weaken ?_
  rintro _ _ ⟨_, _, _, rfl, ⟨isName⟩, _, _, _, rfl, ⟨rfl, opened⟩, _, _, _, rfl,
    ⟨derivedParameters, starts⟩, _, _, _, rfl, ⟨rfl, closed⟩, _, _, _, rfl, derivedType, _, _, _,
    rfl, ⟨rfl, started⟩, _, _, _, rfl, derivedBody, _, _, _, rfl, ⟨rfl, finished⟩, rfl, rfl⟩
  exact .mk spelled isName opened derivedParameters starts closed derivedType started derivedBody
    finished

/-- Tokens of a definition, which may stand in front of any program. -/
def IsDefinition (tokens : List Token) (found : Definition) : Prop :=
  ∀ later program, IsProgram later program → IsProgram (tokens ++ later) (found.before program)

theorem isDefinition_sample :
    IsDefinition [.mark "VAR", .sample, .mark ":", .sample, .mark ";"]
      (.global ⟨"x", "x", true, none, 0, none⟩) := by
  intro later program derivedLater
  exact .global (.mutable rfl isTypedName_sample .none rfl) derivedLater

theorem viable_definition (budget : Nat) : Viable (definition budget) IsDefinition := by
  have nested := viable_expression budget
  have sound := sound_expression budget
  have after {keyword : Token} {tail rest : List Token} {why : Obstacle}
      {reader : Reader Definition}
      (viable : Viable reader fun taken found => IsDefinition (keyword :: taken) found)
      (failed : reader tail = .fail why rest) :
      ∃ taken more found, keyword :: tail = taken ++ rest ∧
        IsDefinition (taken ++ more) found := by
    obtain ⟨taken, more, found, rfl, derived⟩ := viable.continues _ _ _ failed
    exact ⟨keyword :: taken, more, found, rfl, derived⟩
  have ofGlobal {keyword : Token} {reader : Reader Global}
      (viable : Viable reader fun taken item => IsGlobal (keyword :: taken) item) :
      Viable (Definition.global <$> reader) fun taken found =>
        IsDefinition (keyword :: taken) found :=
    viable.map _ fun _ _ derived _ _ derivedLater => .global derived derivedLater
  refine ⟨⟨_, _, isDefinition_sample⟩, ?_⟩
  intro tokens why rest failed
  unfold definition at failed
  split at failed
  · cases failed
    exact ⟨[], _, _, rfl, isDefinition_sample⟩
  next keyword tail =>
    split at failed
    next spelled =>
      have ofFunction : Viable (Definition.function <$> function budget keyword.offset)
          fun taken found => IsDefinition (keyword :: taken) found :=
        (viable_function spelled budget).map _
          fun _ _ derived _ _ derivedLater => .function derived derivedLater
      exact after ofFunction failed
    split at failed
    next spelled => exact after (ofGlobal (nested.listGlobal sound spelled budget)) failed
    split at failed
    next spelled => exact after (ofGlobal (nested.mutableGlobal sound spelled)) failed
    split at failed
    next spelled => exact after (ofGlobal (nested.immutableGlobal sound spelled)) failed
    · cases failed
      exact ⟨[], _, _, rfl, isDefinition_sample⟩

theorem viable_program (budget : Nat) : Viable (program budget) IsProgram := by
  refine ⟨⟨[], _, .nil⟩, ?_⟩
  induction budget with
  | zero =>
      intro tokens why rest failed
      cases failed
  | succ budget induction =>
      intro tokens why rest failed
      unfold program at failed
      split at failed
      · cases failed
      next token tail =>
        rcases bind_eq_fail failed with failedFirst | ⟨first, _, readFirst, failedMore⟩
        · obtain ⟨taken, more, found, split, derived⟩ :=
            (viable_definition budget).continues _ _ _ failedFirst
          have alone := derived [] _ .nil
          rw [List.append_nil] at alone
          exact ⟨taken, more, _, split, alone⟩
        · rcases bind_eq_fail failedMore with failedLater | ⟨_, _, _, finished⟩
          · obtain ⟨others, more, found, rfl, derivedLater⟩ := induction _ _ _ failedLater
            obtain ⟨taken, split, derived⟩ := sound_definition derivedLater readFirst
            rw [← List.append_assoc] at derived
            exact ⟨taken ++ others, more, _, by simp [split], derived⟩
          · cases finished

end Definitions

end Reader

end Procedural
