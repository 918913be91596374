import Procedural.Proofs.Typing.Contexts
import Procedural.Proofs.Typing.Derivation

/-!
# Checking decides the rules of typing

What passes the check is derivable by the rules, and what is derivable passes.  An annotated
tree is derivable exactly if it passes and stays as it is.  Both are one statement about a
check that settles a tree.
-/

namespace Procedural

open Typing Rules

/-- The check passes with a result; an annotated tree is returned as it was given. -/
def Checked.Settles {τ α : Type} (checked : Checked τ α) (annotated : Bool) (given : τ)
    (result : α) : Prop :=
  checked.verdict = .ok result ∧ (annotated = true → checked.tree = given)

variable {annotated : Bool} {environment : Typing.Environment}

/-- A tree is settled in two steps if the first one succeeds. -/
theorem Checked.settles_step {τ β : Type} {first : Except TypingError Unit}
    {failed given : τ} {rest : Checked τ β} {result : β} :
    Checked.Settles
        (match first with
          | .error error => ⟨failed, .error error⟩
          | .ok () => rest)
        annotated given result ↔
      first = .ok () ∧ rest.Settles annotated given result := by
  cases first with
  | error error => simp [Checked.Settles]
  | ok _ => simp

/-- A tree is settled in two steps if the first one yields a type, by which the second goes. -/
theorem Checked.settles_typed {τ β : Type} {first : Except TypingError Ty} {failed given : τ}
    {rest : Ty → Checked τ β} {result : β} :
    Checked.Settles
        (match first with
          | .error error => ⟨failed, .error error⟩
          | .ok ty => rest ty)
        annotated given result ↔
      ∃ ty, first = .ok ty ∧ (rest ty).Settles annotated given result := by
  cases first with
  | error error => simp [Checked.Settles]
  | ok ty => simp

/-- A tree is settled in two steps if the first one yields an environment, in which the second
goes on. -/
theorem Checked.settles_extended {τ β : Type} {first : Except TypingError Typing.Environment}
    {failed given : τ} {rest : Typing.Environment → Checked τ β} {result : β} :
    Checked.Settles
        (match first with
          | .error error => ⟨failed, .error error⟩
          | .ok extended => rest extended)
        annotated given result ↔
      ∃ extended, first = .ok extended ∧ (rest extended).Settles annotated given result := by
  cases first with
  | error error => simp [Checked.Settles]
  | ok extended => simp

/-- A tree is settled if the variable that it needs is found, by which the rest goes. -/
theorem Checked.settles_found {τ β : Type} {found : Option VariableType} {failed given : τ}
    {error : TypingError} {rest : VariableType → Checked τ β} {result : β} :
    Checked.Settles
        (match found with
          | none => ⟨failed, .error error⟩
          | some known => rest known)
        annotated given result ↔
      ∃ known, found = some known ∧ (rest known).Settles annotated given result := by
  cases found with
  | none => simp [Checked.Settles]
  | some known => simp

theorem Rules.assignable_iff {target found : Ty} :
    Assignable target found ↔ target.accepts found = true := by
  simp only [Ty.accepts, Assignable, Bool.or_eq_true, beq_iff_eq, or_assoc]

theorem Ty.ofName?_eq_some {text : String} {ty : Ty} :
    Ty.ofName? text = some ty ↔ ty.name = text := by
  constructor
  · intro found
    simpa using List.find?_some found
  · rintro rfl
    cases ty <;> rfl

theorem Ty.name_injective : Function.Injective Ty.name := by
  intro left right same
  exact Option.some.inj ((ofName?_eq_some.mpr rfl).symm.trans (ofName?_eq_some.mpr same.symm))

theorem Typing.resolve_eq_ok {text : String} {offset : Option Nat} {ty : Ty} :
    resolve text offset = .ok ty ↔ ty.name = text := by
  rw [← Ty.ofName?_eq_some]
  unfold resolve
  cases Ty.ofName? text <;> simp

theorem Typing.require_iff {target found : Ty} {offset : Option Nat} :
    require target found offset = .ok () ↔ Assignable target found :=
  require_eq_ok.trans assignable_iff.symm

theorem Typing.literalType_eq_ok {value : Scalar} {offset : Nat} {ty : Ty} :
    literalType value offset = .ok ty ↔ LiteralRule value ty := by
  constructor
  · intro typed
    cases value with
    | integer number =>
        simp only [literalType] at typed
        split at typed
        · cases typed
          exact .integer ‹_›
        · cases typed
    | decimal number =>
        simp only [literalType] at typed
        split at typed
        · cases typed
          exact .decimal ‹_›
        · cases typed
    | _ =>
        cases typed
        constructor
  · intro rule
    cases rule with
    | integer fits => simp only [literalType, fits, if_true]
    | decimal fits => simp only [literalType, fits, if_true]
    | _ => rfl

theorem Rules.assignable_boolean {found : Ty} : Assignable .boolean found ↔ found = .boolean := by
  simp [Assignable, eq_comm]

theorem Rules.assignable_comparable (found : Ty) : Assignable .comparable found :=
  .inr (.inr rfl)

theorem Typing.logicalType_eq_ok {left right ty : Ty} {offset : Option Nat} :
    (do
      require .boolean left offset
      require .boolean right offset
      .ok .boolean) = Except.ok ty ↔ left = .boolean ∧ right = .boolean ∧ ty = .boolean := by
  constructor
  · intro typed
    obtain ⟨_, first, later⟩ := bind_eq_ok.mp typed
    obtain ⟨_, second, result⟩ := bind_eq_ok.mp later
    exact ⟨assignable_boolean.mp (require_iff.mp first),
      assignable_boolean.mp (require_iff.mp second), (Except.ok.inj result).symm⟩
  · rintro ⟨rfl, rfl, rfl⟩
    rfl

theorem Typing.isNumeric_iff {ty : Ty} : isNumeric ty = true ↔ ty ∈ [Ty.integer, .decimal] := by
  simp [isNumeric]

theorem Typing.binaryType_eq_ok {op : BinaryOp} {left right ty : Ty} {offset : Nat} :
    binaryType op left right offset = .ok ty ↔ OperatorRule op left right ty := by
  constructor
  · intro typed
    cases op with
    | and | or =>
        obtain ⟨rfl, rfl, rfl⟩ := logicalType_eq_ok.mp typed
        exact .logical (by simp)
    | less | greater | equal | unequal =>
        simp only [binaryType] at typed
        split at typed
        next accepts =>
          cases typed
          exact .comparison (by simp) (assignable_comparable left) (assignable_comparable right)
            (assignable_iff.mpr accepts)
        · cases typed
    | add =>
        simp only [binaryType] at typed
        split at typed
        next isString =>
          cases typed
          exact .concatenation isString
        · split at typed
          next numeric =>
            cases typed
            obtain ⟨numeric, rfl⟩ := numeric
            exact .arithmetic (by simp) (isNumeric_iff.mp numeric)
          · cases typed
    | subtract | multiply | divide =>
        simp only [binaryType] at typed
        split at typed
        next numeric =>
          cases typed
          obtain ⟨numeric, rfl⟩ := numeric
          exact .arithmetic (by simp) (isNumeric_iff.mp numeric)
        · cases typed
    | power =>
        simp only [binaryType] at typed
        split at typed
        next integers =>
          cases typed
          obtain ⟨rfl, rfl⟩ := integers
          exact .power
        · cases typed
  · intro rule
    cases rule with
    | logical isLogical =>
        rcases List.mem_pair.mp isLogical with rfl | rfl <;> rfl
    | comparison isComparison _ _ assignable =>
        have accepts := assignable_iff.mp assignable
        simp only [List.mem_cons, List.not_mem_nil, or_false] at isComparison
        rcases isComparison with rfl | rfl | rfl | rfl <;> simp only [binaryType, accepts, if_true]
    | concatenation isString => simp only [binaryType, isString, if_true]
    | arithmetic isArithmetic numeric =>
        simp only [List.mem_cons, List.not_mem_nil, or_false] at isArithmetic numeric
        rcases isArithmetic with rfl | rfl | rfl | rfl <;> rcases numeric with rfl | rfl <;> rfl
    | power => rfl

theorem Rules.noted_iff {note : Note} {ty : Ty} {function : Option Signature} :
    Noted annotated note ty function ↔
      (annotated = true → { note with ty := some ty, function } = note) := by
  obtain ⟨offset, noted, bound⟩ := note
  simp only [Noted, Note.mk.injEq, true_and, eq_comm]

theorem Typing.settles_conclude {rebuild : Note → Expr} {note : Note}
    {function : Option Signature} {outcome : Except TypingError Ty} {given : Expr} {ty : Ty} :
    (conclude rebuild note function outcome).Settles annotated given ty ↔
      outcome = .ok ty ∧
        (annotated = true → rebuild { note with ty := some ty, function } = given) := by
  cases outcome with
  | error error => simp [conclude, Checked.Settles]
  | ok found =>
      simp only [conclude, Checked.Settles, Except.ok.injEq]
      constructor
      · rintro ⟨rfl, fixed⟩
        exact ⟨rfl, fixed⟩
      · rintro ⟨rfl, fixed⟩
        exact ⟨rfl, fixed⟩

namespace Expr

/-- One more expression of which a type is required. -/
theorem settles_cons {item : Expr} {rest : List Expr} {expected : Ty}
    {others : Checked (List Expr) Unit} :
    Checked.Settles
        (match (item.check environment).verdict.bind fun found =>
            require expected found (some item.offset) with
          | .error error => ⟨(item.check environment).tree :: rest, .error error⟩
          | .ok () => ⟨(item.check environment).tree :: others.tree, others.verdict⟩)
        annotated (item :: rest) () ↔
      (∃ found, (item.check environment).Settles annotated item found ∧
        Assignable expected found) ∧ others.Settles annotated rest () := by
  constructor
  · rintro ⟨passes, fixed⟩
    cases required : (item.check environment).verdict.bind fun found =>
        require expected found (some item.offset) with
    | error error =>
        rw [required] at passes
        cases passes
    | ok _ =>
        simp only [required] at passes fixed
        obtain ⟨found, typed, assignable⟩ := bind_eq_ok.mp required
        exact ⟨⟨found, ⟨typed, fun yes => (List.cons.inj (fixed yes)).1⟩,
          require_iff.mp assignable⟩, passes, fun yes => (List.cons.inj (fixed yes)).2⟩
  · rintro ⟨⟨found, ⟨typed, fixed⟩, assignable⟩, passes, othersFixed⟩
    have required : ((item.check environment).verdict.bind fun found =>
        require expected found (some item.offset)) = .ok () :=
      bind_eq_ok.mpr ⟨found, typed, require_iff.mpr assignable⟩
    simp only [required]
    exact ⟨passes, fun yes => by rw [fixed yes, othersFixed yes]⟩

/-- On the expression the check and the rules agree. -/
def Decided (annotated : Bool) (environment : Typing.Environment) (expr : Expr) : Prop :=
  ∀ ty, (expr.check environment).Settles annotated expr ty ↔
    HasType annotated (.of environment) expr ty

section Forms

variable {note : Note} {name : String}

theorem decided_literal {value : Scalar} :
    Decided annotated environment (.literal note value) := by
  intro ty
  rw [check, settles_conclude, literalType_eq_ok]
  constructor
  · rintro ⟨rule, fixed⟩
    exact .literal rule (noted_iff.mpr fun yes => (literal.inj (fixed yes)).1)
  · intro typed
    cases typed with
    | literal rule noted => exact ⟨rule, fun yes => by rw [noted_iff.mp noted yes]⟩

theorem decided_group {inner : Expr} (decided : inner.Decided annotated environment) :
    Decided annotated environment (.group note inner) := by
  intro ty
  constructor
  · rintro ⟨passes, fixed⟩
    cases inner with
    | binary innerNote op left right =>
        obtain ⟨typed, same⟩ := settles_conclude.mp (And.intro passes fixed)
        exact .group ((decided ty).mp ⟨typed, fun yes => (group.inj (same yes)).2⟩)
          (noted_iff.mpr fun yes => (group.inj (same yes)).1)
    | _ => cases passes
  · intro typed
    cases typed with
    | group typed noted =>
        obtain ⟨passes, fixed⟩ := (decided ty).mpr typed
        exact settles_conclude.mpr
          ⟨passes, fun yes => by rw [noted_iff.mp noted yes, fixed yes]⟩

theorem decided_binary {op : BinaryOp} {left right : Expr}
    (first : left.Decided annotated environment) (second : right.Decided annotated environment) :
    Decided annotated environment (.binary note op left right) := by
  intro ty
  refine Checked.settles_typed.trans ?_
  constructor
  · rintro ⟨leftType, leftPasses, settles⟩
    obtain ⟨typed, same⟩ := settles_conclude.mp settles
    obtain ⟨rightType, rightPasses, rule⟩ := bind_eq_ok.mp typed
    exact .binary
      ((first leftType).mp ⟨leftPasses, fun yes => (binary.inj (same yes)).2.2.1⟩)
      ((second rightType).mp ⟨rightPasses, fun yes => (binary.inj (same yes)).2.2.2⟩)
      (binaryType_eq_ok.mp rule) (noted_iff.mpr fun yes => (binary.inj (same yes)).1)
  · intro typed
    cases typed with
    | binary leftTyped rightTyped rule noted =>
        obtain ⟨leftPasses, leftFixed⟩ := (first _).mpr leftTyped
        obtain ⟨rightPasses, rightFixed⟩ := (second _).mpr rightTyped
        refine ⟨_, leftPasses, settles_conclude.mpr
          ⟨bind_eq_ok.mpr ⟨_, rightPasses, binaryType_eq_ok.mpr rule⟩, fun yes => ?_⟩⟩
        rw [noted_iff.mp noted yes, leftFixed yes, rightFixed yes]

theorem decided_access : Decided annotated environment (.access note name) := by
  intro ty
  refine Checked.settles_found.trans ?_
  constructor
  · rintro ⟨known, found, settles⟩
    obtain ⟨typed, same⟩ := settles_conclude.mp settles
    cases typed
    exact .access ((Context.findVariable?_of environment name).trans found)
      (noted_iff.mpr fun yes => (access.inj (same yes)).1)
  · intro typed
    cases typed with
    | access found noted =>
        rw [Context.findVariable?_of] at found
        exact ⟨_, found, settles_conclude.mpr
          ⟨rfl, fun yes => by rw [noted_iff.mp noted yes]⟩⟩

theorem decided_element {index : Expr} (decided : index.Decided annotated environment) :
    Decided annotated environment (.element note name index) := by
  intro ty
  refine Checked.settles_found.trans ?_
  constructor
  · rintro ⟨known, found, settles⟩
    obtain ⟨typed, same⟩ := settles_conclude.mp settles
    obtain ⟨indexType, indexPasses, outcome⟩ := bind_eq_ok.mp typed
    obtain ⟨_, required, rfl⟩ := map_eq_ok.mp outcome
    exact .element ((Context.findVariable?_of environment name).trans found)
      ((decided indexType).mp ⟨indexPasses, fun yes => (element.inj (same yes)).2.2⟩)
      (require_iff.mp required) (noted_iff.mpr fun yes => (element.inj (same yes)).1)
  · intro typed
    cases typed with
    | element found indexTyped assignable noted =>
        rw [Context.findVariable?_of] at found
        obtain ⟨indexPasses, indexFixed⟩ := (decided _).mpr indexTyped
        refine ⟨_, found, settles_conclude.mpr ⟨bind_eq_ok.mpr ⟨_, indexPasses,
          map_eq_ok.mpr ⟨(), require_iff.mpr assignable, rfl⟩⟩, fun yes => ?_⟩⟩
        rw [noted_iff.mp noted yes, indexFixed yes]

theorem decided_call (balanced : environment.Balanced) {arguments : List Expr}
    (decided : ∀ types : List Ty, types.length = arguments.length →
      ((checkArguments environment types arguments).Settles annotated arguments () ↔
        Arguments annotated (.of environment) arguments types)) :
    Decided annotated environment (.call note name arguments) := by
  intro ty
  constructor
  · rintro ⟨passes, fixed⟩
    simp only [check] at passes fixed
    cases found : environment.findFunction? name arguments.length with
    | none =>
        rw [found] at passes
        cases passes
    | some signature =>
        simp only [found] at passes fixed
        obtain ⟨typed, same⟩ := settles_conclude.mp ⟨passes, fixed⟩
        obtain ⟨_, argumentsPass, rfl⟩ := map_eq_ok.mp typed
        have lengths := balanced name arguments.length signature found
        exact .call ((Context.findFunction?_of environment name _).trans found)
          ((decided signature.parameters lengths).mp
            ⟨argumentsPass, fun yes => (call.inj (same yes)).2.2⟩)
          (noted_iff.mpr fun yes => (call.inj (same yes)).1)
  · intro typed
    cases typed with
    | @call note name arguments signature found argumentsTyped noted =>
        rw [Context.findFunction?_of] at found
        have lengths := balanced name arguments.length signature found
        obtain ⟨argumentsPass, argumentsFixed⟩ :=
          (decided signature.parameters lengths).mpr argumentsTyped
        simp only [check, found]
        refine settles_conclude.mpr ⟨map_eq_ok.mpr ⟨(), argumentsPass, rfl⟩, fun yes => ?_⟩
        rw [noted_iff.mp noted yes, argumentsFixed yes]

theorem decided_list {elements : List Expr}
    (decided : ∀ ty, (checkElements environment ty elements).Settles annotated elements () ↔
      Elements annotated (.of environment) ty elements) :
    Decided annotated environment (.list note elements) := by
  intro ty
  rw [check, settles_conclude]
  constructor
  · rintro ⟨typed, same⟩
    obtain ⟨_, elementsPass, rfl⟩ := map_eq_ok.mp typed
    exact .list rfl ((decided _).mp ⟨elementsPass, fun yes => (list.inj (same yes)).2⟩)
      (noted_iff.mpr fun yes => (list.inj (same yes)).1)
  · intro typed
    cases typed with
    | list established elementsTyped noted =>
        subst established
        obtain ⟨elementsPass, elementsFixed⟩ := (decided _).mpr elementsTyped
        refine ⟨map_eq_ok.mpr ⟨(), elementsPass, rfl⟩, fun yes => ?_⟩
        rw [noted_iff.mp noted yes, elementsFixed yes]

end Forms

variable (annotated)

mutual

theorem settles_check (balanced : environment.Balanced) : ∀ expr : Expr,
    expr.Decided annotated environment
  | literal _ _ => decided_literal
  | group _ inner => decided_group (settles_check balanced inner)
  | binary _ _ left right =>
      decided_binary (settles_check balanced left) (settles_check balanced right)
  | access _ _ => decided_access
  | element _ _ index => decided_element (settles_check balanced index)
  | call _ _ arguments => decided_call balanced (settles_checkArguments balanced arguments)
  | list _ elements => decided_list (settles_checkElements balanced elements)

theorem settles_checkArguments (balanced : environment.Balanced) :
    ∀ (items : List Expr) (types : List Ty), types.length = items.length →
    ((checkArguments environment types items).Settles annotated items () ↔
      Arguments annotated (.of environment) items types)
  | [], [], _ => ⟨fun _ => .nil, fun _ => ⟨rfl, fun _ => rfl⟩⟩
  | item :: rest, expected :: types, lengths => by
      have first := settles_check balanced item
      have others := settles_checkArguments balanced rest types (Nat.succ.inj lengths)
      refine settles_cons.trans ?_
      constructor
      · rintro ⟨⟨found, firstSettles, assignable⟩, othersSettle⟩
        exact .cons ((first found).mp firstSettles) assignable (others.mp othersSettle)
      · intro typed
        cases typed with
        | cons firstTyped assignable othersTyped =>
            exact ⟨⟨_, (first _).mpr firstTyped, assignable⟩, others.mpr othersTyped⟩

theorem settles_checkElements (balanced : environment.Balanced) :
    ∀ (items : List Expr) (ty : Ty),
    (checkElements environment ty items).Settles annotated items () ↔
      Elements annotated (.of environment) ty items
  | [], _ => ⟨fun _ => .nil, fun _ => ⟨rfl, fun _ => rfl⟩⟩
  | item :: rest, ty => by
      have first := settles_check balanced item
      have others := settles_checkElements balanced rest ty
      refine settles_cons.trans ?_
      constructor
      · rintro ⟨⟨found, firstSettles, assignable⟩, othersSettle⟩
        exact .cons ((first found).mp firstSettles) assignable (others.mp othersSettle)
      · intro typed
        cases typed with
        | cons firstTyped assignable othersTyped =>
            exact ⟨⟨_, (first _).mpr firstTyped, assignable⟩, others.mpr othersTyped⟩

end

theorem settles_checkAgainst (balanced : environment.Balanced) (expr : Expr) (expected : Ty) :
    (expr.checkAgainst environment expected).Settles annotated expr () ↔
      Fits annotated (.of environment) expected expr := by
  constructor
  · rintro ⟨passes, fixed⟩
    obtain ⟨found, typed, required⟩ := bind_eq_ok.mp passes
    exact ⟨found, (expr.settles_check annotated balanced found).mp ⟨typed, fixed⟩,
      require_iff.mp required⟩
  · rintro ⟨found, typed, assignable⟩
    obtain ⟨passes, fixed⟩ := (expr.settles_check annotated balanced found).mpr typed
    exact ⟨bind_eq_ok.mpr ⟨found, passes, require_iff.mpr assignable⟩, fixed⟩

end Expr

namespace Rules

theorem LiteralRule.unique {value : Scalar} {ty ty' : Ty} (rule : LiteralRule value ty)
    (rule' : LiteralRule value ty') : ty = ty' := by
  have found : literalType value 0 = .ok ty := literalType_eq_ok.mpr rule
  exact Except.ok.inj (found.symm.trans (literalType_eq_ok.mpr rule'))

theorem OperatorRule.unique {op : BinaryOp} {left right ty ty' : Ty}
    (rule : OperatorRule op left right ty) (rule' : OperatorRule op left right ty') :
    ty = ty' := by
  have found : binaryType op left right 0 = .ok ty := binaryType_eq_ok.mpr rule
  exact Except.ok.inj (found.symm.trans (binaryType_eq_ok.mpr rule'))

/-- An expression has one type, whether or not slots are looked at. -/
theorem HasType.unique {annotated annotated' : Bool} {context : Context} :
    ∀ {expr : Expr} {ty ty' : Ty}, HasType annotated context expr ty →
      HasType annotated' context expr ty' → ty = ty'
  | .literal _ _, _, _, .literal rule _, .literal rule' _ => rule.unique rule'
  | .group _ _, _, _, .group typed _, .group typed' _ => typed.unique typed'
  | .binary _ _ _ _, _, _, .binary left right rule _, .binary left' right' rule' _ => by
      obtain rfl := left.unique left'
      obtain rfl := right.unique right'
      exact rule.unique rule'
  | .access _ _, _, _, .access bound _, .access bound' _ =>
      congrArg VariableType.ty (Option.some.inj (bound.symm.trans bound'))
  | .element _ _ _, _, _, .element bound _ _ _, .element bound' _ _ _ =>
      congrArg VariableType.ty (Option.some.inj (bound.symm.trans bound'))
  | .call _ _ _, _, _, .call bound _ _, .call bound' _ _ =>
      congrArg Signature.returns (Option.some.inj (bound.symm.trans bound'))
  | .list _ _, _, _, .list noted _ _, .list noted' _ _ => noted.symm.trans noted'

end Rules

namespace Typing

theorem declare_iff {name : String} {offset : Option Nat} {variableType : VariableType}
    {extended : Environment} :
    declare environment name offset variableType = .ok extended ↔
      (Context.of environment).Free name ∧
        environment.defineVariable name variableType = extended := by
  rw [declare_eq_ok, Context.free_of]

/-- Environments with the same functions are balanced together. -/
theorem Environment.Balanced.of_functions {other : Environment}
    (balanced : environment.Balanced)
    (same : (Context.of other).functions = (Context.of environment).functions) :
    other.Balanced := by
  apply balanced.of_findFunction
  intro name arity
  rw [← Context.findFunction?_of, ← Context.findFunction?_of, Context.findFunction?,
    Context.findFunction?, same]

variable {returns : Ty} {context : Context}

theorem settles_checkUntyped (balanced : environment.Balanced) (name : String)
    (value : Option Expr) :
    (∃ after, (checkUntyped environment name value).Settles annotated
        (.declaration name none value) after ∧ .of after = context) ↔
      StmtRule annotated returns (.of environment) (.declaration name none value) context := by
  constructor
  · rintro ⟨after, ⟨passes, fixed⟩, rfl⟩
    cases value with
    | none => cases passes
    | some value =>
        obtain ⟨ty, typed, declared⟩ := bind_eq_ok.mp passes
        obtain ⟨free, rfl⟩ := declare_iff.mp declared
        rw [Context.of_defineVariable]
        exact .declareUntyped ((value.settles_check annotated balanced ty).mp
          ⟨typed, fun yes => Option.some.inj (Stmt.declaration.inj (fixed yes)).2.2⟩) free
  · intro rule
    cases rule with
    | declareUntyped typed free =>
        obtain ⟨passes, fixed⟩ := (Expr.settles_check annotated balanced _ _).mpr typed
        refine ⟨_, ⟨bind_eq_ok.mpr ⟨_, passes, declare_iff.mpr ⟨free, rfl⟩⟩, fun yes => ?_⟩,
          Context.of_defineVariable ..⟩
        simp only [checkUntyped, fixed yes]

theorem settles_checkTyped (balanced : environment.Balanced) (name typeName : String)
    (value : Option Expr) :
    (∃ after, (checkTyped environment name typeName value).Settles annotated
        (.declaration name (some typeName) value) after ∧ .of after = context) ↔
      StmtRule annotated returns (.of environment) (.declaration name (some typeName) value)
        context := by
  constructor
  · rintro ⟨after, ⟨passes, fixed⟩, rfl⟩
    simp only [checkTyped] at passes fixed
    cases resolved : resolve typeName (value.map Expr.offset) with
    | error error =>
        rw [resolved] at passes
        cases passes
    | ok ty =>
        obtain rfl := resolve_eq_ok.mp resolved
        cases value with
        | none =>
            rw [resolved] at passes
            obtain ⟨free, rfl⟩ := declare_iff.mp passes
            rw [Context.of_defineVariable]
            exact .declareTyped (by simp) free
        | some value =>
            simp only [resolved] at passes fixed
            obtain ⟨_, typed, declared⟩ := bind_eq_ok.mp passes
            obtain ⟨free, rfl⟩ := declare_iff.mp declared
            have fits := (value.settles_checkAgainst annotated balanced ty).mp
              ⟨typed, fun yes => Option.some.inj (Stmt.declaration.inj (fixed yes)).2.2⟩
            rw [Context.of_defineVariable]
            exact .declareTyped (by simpa using fits) free
  · intro rule
    cases rule with
    | @declareTyped _ _ _ ty fits free =>
        have resolved : resolve ty.name (value.map Expr.offset) = .ok ty := resolve_eq_ok.mpr rfl
        have declared : declare environment name (value.map Expr.offset) ⟨ty, true⟩ =
            .ok (environment.defineVariable name ⟨ty, true⟩) := declare_iff.mpr ⟨free, rfl⟩
        refine ⟨environment.defineVariable name ⟨ty, true⟩, ?_, Context.of_defineVariable ..⟩
        simp only [checkTyped, resolved]
        cases value with
        | none => exact ⟨declared, fun _ => rfl⟩
        | some value =>
            obtain ⟨passes, fixed⟩ :=
              (value.settles_checkAgainst annotated balanced ty).mpr (fits value rfl)
            exact ⟨bind_eq_ok.mpr ⟨(), passes, declared⟩, fun yes => by simp only [fixed yes]⟩

theorem isImmutable_eq_false {name : String} {found : VariableType}
    (known : (Context.of environment).findVariable? name = some found) :
    isImmutable environment name = false ↔ found.mutable = true := by
  rw [Context.findVariable?_of] at known
  simp [isImmutable, known]

end Typing

/-- What can be assigned to is a variable or an element of one. -/
theorem Rules.HasType.target {context : Context} {receiver : Expr} {ty : Ty} {name : String}
    (typed : HasType annotated context receiver ty) (target : receiver.target? = some name) :
    ∃ found, context.findVariable? name = some found := by
  cases typed with
  | access found _ =>
      cases target
      exact ⟨_, found⟩
  | element found _ _ _ =>
      cases target
      exact ⟨_, found⟩
  | _ => cases target

theorem Typing.settles_checkAssignment {returns : Ty} {context : Context}
    (balanced : environment.Balanced) (receiver value : Expr) :
    (∃ after, (checkAssignment environment receiver value).Settles annotated
        (.assignment receiver value) after ∧ .of after = context) ↔
      StmtRule annotated returns (.of environment) (.assignment receiver value) context := by
  constructor
  · rintro ⟨after, settled, rfl⟩
    simp only [checkAssignment] at settled
    cases target : receiver.target? with
    | none =>
        rw [target] at settled
        cases settled.1
    | some name =>
        simp only [target] at settled
        obtain ⟨ty, receiverPasses, settled⟩ := Checked.settles_typed.mp settled
        split at settled
        · cases settled.1
        next mutable =>
          obtain ⟨passes, fixed⟩ := settled
          obtain ⟨_, valuePasses, rfl⟩ := map_eq_ok.mp passes
          have typed := (receiver.settles_check annotated balanced ty).mp
            ⟨receiverPasses, fun yes => (Stmt.assignment.inj (fixed yes)).1⟩
          obtain ⟨found, known⟩ := typed.target target
          exact .assignment target typed known
            ((isImmutable_eq_false known).mp (Bool.eq_false_iff.mpr mutable))
            ((value.settles_checkAgainst annotated balanced ty).mp
              ⟨valuePasses, fun yes => (Stmt.assignment.inj (fixed yes)).2⟩)
  · intro rule
    cases rule with
    | assignment target typed known mutable fits =>
        obtain ⟨passes, fixed⟩ := (receiver.settles_check annotated balanced _).mpr typed
        obtain ⟨valuePasses, valueFixed⟩ :=
          (value.settles_checkAgainst annotated balanced _).mpr fits
        have changes := (isImmutable_eq_false known).mpr mutable
        refine ⟨environment, ?_, rfl⟩
        simp only [checkAssignment, target]
        refine Checked.settles_typed.mpr ⟨_, passes, ?_⟩
        rw [if_neg (Bool.eq_false_iff.mp changes)]
        refine ⟨map_eq_ok.mpr ⟨(), valuePasses, rfl⟩, fun yes => ?_⟩
        simp only [fixed yes, valueFixed yes]

theorem Rules.StmtRule.functions_eq {returns : Ty} {context after : Context} {stmt : Stmt}
    (rule : StmtRule annotated returns context stmt after) :
    after.functions = context.functions := by
  cases rule <;> rfl

/-- On the statement the check and the rules agree, also on the context behind it. -/
def Stmt.Decided (annotated : Bool) (environment : Typing.Environment) (returns : Ty)
    (stmt : Stmt) : Prop :=
  ∀ context, (∃ after, (stmt.check returns environment).Settles annotated stmt after ∧
      .of after = context) ↔
    StmtRule annotated returns (.of environment) stmt context

/-- On the block the check and the rules agree. -/
def Stmt.BlockDecided (annotated : Bool) (environment : Typing.Environment) (returns : Ty)
    (stmts : List Stmt) : Prop :=
  (Stmt.checkBlock returns environment stmts).Settles annotated stmts () ↔
    BlockRule annotated returns (.of environment) stmts

/-- On the cases the check and the rules agree. -/
def Case.AllDecided (annotated : Bool) (environment : Typing.Environment) (returns ty : Ty)
    (offset : Nat) (cases : List Case) : Prop :=
  (checkAll returns environment ty offset cases).Settles annotated cases () ↔
    CasesRule annotated returns (.of environment) ty cases

namespace Stmt

variable {returns : Ty}

theorem decided_expression (balanced : environment.Balanced) {value : Expr} :
    Decided annotated environment returns (.expression value) := by
  intro context
  constructor
  · rintro ⟨after, ⟨passes, fixed⟩, rfl⟩
    obtain ⟨ty, typed, rfl⟩ := map_eq_ok.mp passes
    exact .expression ((value.settles_check annotated balanced ty).mp
      ⟨typed, fun yes => Stmt.expression.inj (fixed yes)⟩)
  · intro rule
    cases rule with
    | expression typed =>
        obtain ⟨passes, fixed⟩ := (value.settles_check annotated balanced _).mpr typed
        exact ⟨environment, ⟨map_eq_ok.mpr ⟨_, passes, rfl⟩,
          fun yes => congrArg Stmt.expression (fixed yes)⟩, rfl⟩

theorem decided_branch (balanced : environment.Balanced) {condition : Expr}
    {thenBlock elseBlock : List Stmt}
    (thens : BlockDecided annotated environment.push returns thenBlock)
    (elses : BlockDecided annotated environment.push returns elseBlock) :
    Decided annotated environment returns (.branch condition thenBlock elseBlock) := by
  intro context
  have conditions := condition.settles_checkAgainst annotated balanced .boolean
  unfold BlockDecided at thens elses
  rw [Context.of_push] at thens elses
  constructor
  · rintro ⟨after, settled, rfl⟩
    obtain ⟨conditionPasses, settled⟩ := Checked.settles_step.mp settled
    split at settled
    · cases settled.1
    next notEmpty =>
      obtain ⟨thenPasses, passes, fixed⟩ := Checked.settles_step.mp settled
      obtain ⟨_, elsePasses, rfl⟩ := map_eq_ok.mp passes
      exact .branch
        (conditions.mp ⟨conditionPasses, fun yes => (Stmt.branch.inj (fixed yes)).1⟩)
        (fun empty => notEmpty (by rw [empty]; rfl))
        (thens.mp ⟨thenPasses, fun yes => (Stmt.branch.inj (fixed yes)).2.1⟩)
        (elses.mp ⟨elsePasses, fun yes => (Stmt.branch.inj (fixed yes)).2.2⟩)
  · intro rule
    cases rule with
    | branch fits notEmpty thenRule elseRule =>
        obtain ⟨conditionPasses, conditionFixed⟩ := conditions.mpr fits
        obtain ⟨thenPasses, thenFixed⟩ := thens.mpr thenRule
        obtain ⟨elsePasses, elseFixed⟩ := elses.mpr elseRule
        refine ⟨environment, Checked.settles_step.mpr ⟨conditionPasses, ?_⟩, rfl⟩
        rw [if_neg (by simpa using notEmpty)]
        refine Checked.settles_step.mpr
          ⟨thenPasses, map_eq_ok.mpr ⟨(), elsePasses, rfl⟩, fun yes => ?_⟩
        simp only [conditionFixed yes, thenFixed yes, elseFixed yes]

theorem decided_switch (balanced : environment.Balanced) {condition : Expr} {cases : List Case}
    (decided : ∀ ty,
      Case.AllDecided annotated environment returns ty condition.offset cases) :
    Decided annotated environment returns (.switch condition cases) := by
  intro context
  have conditions := condition.settles_check annotated balanced
  constructor
  · rintro ⟨after, settled, rfl⟩
    obtain ⟨ty, conditionPasses, passes, fixed⟩ := Checked.settles_typed.mp settled
    obtain ⟨_, casesPass, rfl⟩ := map_eq_ok.mp passes
    exact .switch
      ((conditions ty).mp ⟨conditionPasses, fun yes => (Stmt.switch.inj (fixed yes)).1⟩)
      ((decided ty).mp ⟨casesPass, fun yes => (Stmt.switch.inj (fixed yes)).2⟩)
  · intro rule
    cases rule with
    | @switch _ _ _ ty typed casesRule =>
        obtain ⟨conditionPasses, conditionFixed⟩ := (conditions ty).mpr typed
        obtain ⟨casesPass, casesFixed⟩ := (decided ty).mpr casesRule
        refine ⟨environment, Checked.settles_typed.mpr
          ⟨ty, conditionPasses, map_eq_ok.mpr ⟨(), casesPass, rfl⟩, fun yes => ?_⟩, rfl⟩
        simp only [conditionFixed yes, casesFixed yes]

theorem decided_loop (balanced : environment.Balanced) {condition : Expr} {body : List Stmt}
    (bodies : BlockDecided annotated environment.push returns body) :
    Decided annotated environment returns (.loop condition body) := by
  intro context
  have conditions := condition.settles_checkAgainst annotated balanced .boolean
  unfold BlockDecided at bodies
  rw [Context.of_push] at bodies
  constructor
  · rintro ⟨after, settled, rfl⟩
    obtain ⟨conditionPasses, passes, fixed⟩ := Checked.settles_step.mp settled
    obtain ⟨_, bodyPasses, rfl⟩ := map_eq_ok.mp passes
    exact .loop
      (conditions.mp ⟨conditionPasses, fun yes => (Stmt.loop.inj (fixed yes)).1⟩)
      (bodies.mp ⟨bodyPasses, fun yes => (Stmt.loop.inj (fixed yes)).2⟩)
  · intro rule
    cases rule with
    | loop fits bodyRule =>
        obtain ⟨conditionPasses, conditionFixed⟩ := conditions.mpr fits
        obtain ⟨bodyPasses, bodyFixed⟩ := bodies.mpr bodyRule
        refine ⟨environment, Checked.settles_step.mpr
          ⟨conditionPasses, map_eq_ok.mpr ⟨(), bodyPasses, rfl⟩, fun yes => ?_⟩, rfl⟩
        simp only [conditionFixed yes, bodyFixed yes]

theorem decided_result (balanced : environment.Balanced) {value : Expr} :
    Decided annotated environment returns (.result value) := by
  intro context
  have values := value.settles_checkAgainst annotated balanced returns
  constructor
  · rintro ⟨after, ⟨passes, fixed⟩, rfl⟩
    obtain ⟨_, valuePasses, rfl⟩ := map_eq_ok.mp passes
    exact .result (values.mp ⟨valuePasses, fun yes => Stmt.result.inj (fixed yes)⟩)
  · intro rule
    cases rule with
    | result fits =>
        obtain ⟨passes, fixed⟩ := values.mpr fits
        exact ⟨environment, ⟨map_eq_ok.mpr ⟨(), passes, rfl⟩,
          fun yes => congrArg Stmt.result (fixed yes)⟩, rfl⟩

/-- The environment behind the first statement is the one of the statements after it. -/
theorem blockDecided_cons (balanced : environment.Balanced) {stmt : Stmt} {rest : List Stmt}
    (first : stmt.Decided annotated environment returns)
    (others : ∀ {after : Typing.Environment}, after.Balanced →
      BlockDecided annotated after returns rest) :
    BlockDecided annotated environment returns (stmt :: rest) := by
  constructor
  · intro settled
    obtain ⟨after, passes, restPasses, fixed⟩ := Checked.settles_extended.mp settled
    have rule := (first _).mp
      ⟨after, ⟨passes, fun yes => (List.cons.inj (fixed yes)).1⟩, rfl⟩
    exact .cons rule ((others (balanced.of_functions rule.functions_eq)).mp
      ⟨restPasses, fun yes => (List.cons.inj (fixed yes)).2⟩)
  · intro rule
    cases rule with
    | cons firstRule restRule =>
        obtain ⟨after, ⟨passes, fixed⟩, rfl⟩ := (first _).mpr firstRule
        obtain ⟨restPasses, restFixed⟩ :=
          (others (balanced.of_functions firstRule.functions_eq)).mpr restRule
        refine Checked.settles_extended.mpr ⟨after, passes, restPasses, fun yes => ?_⟩
        simp only [fixed yes, restFixed yes]

end Stmt

namespace Case

variable {returns ty : Ty} {offset : Nat}

theorem allDecided_last {value : Option Expr} {body : List Stmt}
    (bodies : Stmt.BlockDecided annotated environment.push returns body) :
    AllDecided annotated environment returns ty offset [.mk value body] := by
  unfold Stmt.BlockDecided at bodies
  rw [Context.of_push] at bodies
  constructor
  · rintro ⟨passes, fixed⟩
    cases value with
    | some value => cases passes
    | none =>
        exact .default (bodies.mp
          ⟨passes, fun yes => (Case.mk.inj (List.cons.inj (fixed yes)).1).2⟩)
  · intro rule
    cases rule with
    | default bodyRule =>
        obtain ⟨passes, fixed⟩ := bodies.mpr bodyRule
        exact ⟨passes, fun yes => by simp only [checkAll, checkDefault, fixed yes]⟩

theorem settles_checkValued (balanced : environment.Balanced) {value : Expr} {body : List Stmt}
    (bodies : Stmt.BlockDecided annotated environment.push returns body) :
    (checkValued returns environment ty offset (.mk (some value) body)).Settles annotated
        (.mk (some value) body) () ↔
      Fits annotated (.of environment) ty value ∧
        BlockRule annotated returns (Context.of environment).inner body := by
  have values := value.settles_checkAgainst annotated balanced ty
  unfold Stmt.BlockDecided at bodies
  rw [Context.of_push] at bodies
  constructor
  · intro settled
    obtain ⟨valuePasses, bodyPasses, same⟩ := Checked.settles_step.mp settled
    exact ⟨values.mp ⟨valuePasses, fun yes => Option.some.inj (Case.mk.inj (same yes)).1⟩,
      bodies.mp ⟨bodyPasses, fun yes => (Case.mk.inj (same yes)).2⟩⟩
  · rintro ⟨fits, bodyRule⟩
    obtain ⟨valuePasses, valueFixed⟩ := values.mpr fits
    obtain ⟨bodyPasses, bodyFixed⟩ := bodies.mpr bodyRule
    exact Checked.settles_step.mpr
      ⟨valuePasses, bodyPasses, fun yes => by simp only [valueFixed yes, bodyFixed yes]⟩

theorem allDecided_cons (balanced : environment.Balanced) {value : Option Expr}
    {body : List Stmt} {next : Case} {rest : List Case}
    (bodies : Stmt.BlockDecided annotated environment.push returns body)
    (others : AllDecided annotated environment returns ty offset (next :: rest)) :
    AllDecided annotated environment returns ty offset (.mk value body :: next :: rest) := by
  constructor
  · intro settled
    obtain ⟨passes, restPasses, fixed⟩ := Checked.settles_step.mp settled
    cases value with
    | none => cases passes
    | some value =>
        obtain ⟨fits, bodyRule⟩ := (settles_checkValued balanced bodies).mp
          ⟨passes, fun yes => (List.cons.inj (fixed yes)).1⟩
        exact .valued fits bodyRule
          (others.mp ⟨restPasses, fun yes => (List.cons.inj (fixed yes)).2⟩)
  · intro rule
    cases rule with
    | valued fits bodyRule restRule =>
        obtain ⟨passes, same⟩ := (settles_checkValued balanced bodies).mpr ⟨fits, bodyRule⟩
        obtain ⟨restPasses, restFixed⟩ := others.mpr restRule
        refine Checked.settles_step.mpr ⟨passes, restPasses, fun yes => ?_⟩
        simp only [same yes, restFixed yes]

end Case

mutual

theorem Stmt.settles_check (returns : Ty) {environment : Typing.Environment}
    (balanced : environment.Balanced) : ∀ stmt : Stmt,
    stmt.Decided annotated environment returns
  | .expression _ => Stmt.decided_expression balanced
  | .declaration name none value => fun _ => settles_checkUntyped balanced name value
  | .declaration name (some typeName) value => fun _ =>
      settles_checkTyped balanced name typeName value
  | .assignment receiver value => fun _ => settles_checkAssignment balanced receiver value
  | .branch _ thenBlock elseBlock =>
      Stmt.decided_branch balanced (Stmt.settles_checkBlock returns balanced.push thenBlock)
        (Stmt.settles_checkBlock returns balanced.push elseBlock)
  | .switch _ cases =>
      Stmt.decided_switch balanced fun ty => Case.settles_checkAll returns balanced ty _ cases
  | .loop _ body =>
      Stmt.decided_loop balanced (Stmt.settles_checkBlock returns balanced.push body)
  | .result _ => Stmt.decided_result balanced

theorem Stmt.settles_checkBlock (returns : Ty) {environment : Typing.Environment}
    (balanced : environment.Balanced) : ∀ stmts : List Stmt,
    Stmt.BlockDecided annotated environment returns stmts
  | [] => ⟨fun _ => .nil, fun _ => ⟨rfl, fun _ => rfl⟩⟩
  | stmt :: rest =>
      Stmt.blockDecided_cons balanced (Stmt.settles_check returns balanced stmt)
        fun later => Stmt.settles_checkBlock returns later rest

theorem Case.settles_checkAll (returns : Ty) {environment : Typing.Environment}
    (balanced : environment.Balanced) (ty : Ty) (offset : Nat) : ∀ cases : List Case,
    Case.AllDecided annotated environment returns ty offset cases
  | [] => ⟨fun _ => .nil, fun _ => ⟨rfl, fun _ => rfl⟩⟩
  | [.mk _ body] => Case.allDecided_last (Stmt.settles_checkBlock returns balanced.push body)
  | .mk _ body :: next :: rest =>
      Case.allDecided_cons balanced (Stmt.settles_checkBlock returns balanced.push body)
        (Case.settles_checkAll returns balanced ty offset (next :: rest))

end

end Procedural
