import Procedural.Proofs.Typing.Hinges
import Procedural.Proofs.Typing.ProgramDecision

/-!
# Exchanging the operands of a comparison

Of a comparison the check requires that the right operand's type accepts the left one's.
So operands may be exchanged exactly if each of their types accepts the other, wherever in
a program the comparison stands.
-/

namespace Procedural

open Typing

section Programs

variable {loose : Prop} {given : Expr}

/-- The element type of a list literal is noted outside of its elements. -/
theorem Expr.IsSetting.noteElementType {setting : Expr → Expr} (isSetting : IsSetting setting)
    (ty : Ty) : ∃ noted, Annotates IsSetting bare setting noted ∧
      ∀ part, part.isBinary = true → Typing.noteElementType ty (setting part) = noted part := by
  cases isSetting with
  | here =>
      refine ⟨fun part => part, ⟨.here, fun _ => rfl⟩, fun part binary => ?_⟩
      cases part with
      | binary => rfl
      | _ => cases binary
  | element note front back inner =>
      exact ⟨_, ⟨.element { note with ty := some ty } front back inner, fun _ => rfl⟩,
        fun _ _ => rfl⟩
  | group note inner => exact ⟨_, ⟨.group note inner, fun _ => rfl⟩, fun _ _ => rfl⟩
  | left note op other inner => exact ⟨_, ⟨.left note op other inner, fun _ => rfl⟩, fun _ _ => rfl⟩
  | right note op other inner =>
      exact ⟨_, ⟨.right note op other inner, fun _ => rfl⟩, fun _ _ => rfl⟩
  | index note name inner => exact ⟨_, ⟨.index note name inner, fun _ => rfl⟩, fun _ _ => rfl⟩
  | argument note name front back inner =>
      exact ⟨_, ⟨.argument note name front back inner, fun _ => rfl⟩, fun _ _ => rfl⟩

theorem Global.IsSetting.hinge {environment : Typing.Environment}
    (tight : ¬ loose → environment.Balanced) (binary : given.isBinary = true)
    {setting : Expr → Global} (isSetting : Global.IsSetting setting) :
    ∀ extended, (checkGlobal environment (setting given)).verdict = .ok extended →
    Hinges loose (Annotates Global.IsSetting Global.bare setting) given
      (fun part => checkGlobal environment (setting part)) extended := by
  intro extended accepted
  obtain ⟨global, isInner⟩ := isSetting
  next inner =>
    cases resolved : resolve global.typeName (some global.offset) with
    | error error =>
        simp only [checkGlobal, resolved] at accepted
        cases accepted
    | ok ty =>
        cases declared : declare environment global.name (some global.offset)
            ⟨ty, global.mutable⟩ with
        | error error =>
            simp only [checkGlobal, resolved, declared] at accepted
            cases accepted
        | ok environment' =>
            obtain ⟨noted, notes, same⟩ := isInner.noteElementType ty
            simp only [checkGlobal, resolved, declared, same given binary] at accepted
            split at accepted
            · cases accepted
            next verdict =>
              cases accepted
              refine ((notes.isSetting.hinge tight).checkAgainst () verdict).within (fun tree =>
                { global with value := some tree, ty := some ty }) ?_ ?_ ?_
              · exact fun annotated annotates => ⟨.value { global with ty := some ty }
                  annotates.isSetting, fun part => by
                    simp only [Global.relabel, Option.map_some, annotates.bare, notes.bare]; rfl⟩
              · intro part tree alike checked
                simp only [checkGlobal, resolved, declared, same part alike.other_isBinary, checked]
              · intro part error alike failed
                simp only [checkGlobal, resolved, declared, same part alike.other_isBinary, failed]

theorem Typing.balanced_checkGlobal {environment extended : Typing.Environment} {global : Global}
    (balanced : environment.Balanced)
    (passes : (checkGlobal environment global).verdict = .ok extended) : extended.Balanced := by
  simp only [checkGlobal] at passes
  split at passes
  · cases passes
  · split at passes
    · cases passes
    next declared =>
      obtain ⟨_, rfl⟩ := declare_eq_ok.mp declared
      split at passes
      · cases passes
        exact balanced.defineVariable _ _
      · split at passes
        · cases passes
        · cases passes
          exact balanced.defineVariable _ _

theorem Typing.checkGlobals_cons (environment : Typing.Environment) (global : Global)
    (rest : List Global) :
    checkGlobals environment (global :: rest) =
      (checkGlobal environment global).cons rest fun extended => checkGlobals extended rest := by
  simp only [checkGlobals, Checked.cons]
  cases (checkGlobal environment global).verdict <;> rfl

theorem Global.IsSetting.hinge_checkGlobals (binary : given.isBinary = true)
    {inner : Expr → Global} (isSetting : Global.IsSetting inner) (front back : List Global) :
    ∀ {environment after : Typing.Environment}, (¬ loose → environment.Balanced) →
    (checkGlobals environment (front ++ inner given :: back)).verdict = .ok after →
    Hinges loose (Annotates (IsListSetting Global.IsSetting) (List.map Global.bare)
        fun part => front ++ inner part :: back) given
      (fun part => checkGlobals environment (front ++ inner part :: back)) after := by
  induction front with
  | nil =>
      intro environment after tight accepted
      simp only [List.nil_append, checkGlobals_cons] at accepted ⊢
      exact .head (isSetting.hinge tight binary) (fun _ _ => rfl)
        (fun extended => bare_checkGlobals back extended) accepted
  | cons first front induction =>
      intro environment after tight accepted
      simp only [List.cons_append, checkGlobals_cons] at accepted ⊢
      refine .tail (fun extended passes => induction fun isTight => ?_) (fun _ _ => rfl)
        (bare_checkGlobal environment first) accepted
      exact balanced_checkGlobal (tight isTight) passes

/-- Functions are declared in the same way whatever stands in their bodies. -/
theorem Function.IsSetting.declareFunctions {inner : Expr → Function}
    (isSetting : Function.IsSetting inner) (front back : List Function) :
    ∀ environment : Typing.Environment, ∃ annotated verdict,
      Annotates (IsListSetting Function.IsSetting) (List.map Function.bare)
        (fun part => front ++ inner part :: back) annotated ∧
      ∀ part, Typing.declareFunctions environment (front ++ inner part :: back) =
        ⟨annotated part, verdict⟩ := by
  induction front with
  | nil =>
      intro environment
      obtain ⟨function, earlier, later, isInner⟩ := isSetting
      next stmt =>
        have unseen (part : Expr) :
            signatureOf environment { function with body := earlier ++ stmt part :: later } =
              signatureOf environment function := rfl
        cases found : signatureOf environment function with
        | error error =>
            refine ⟨_, .error error, ⟨⟨[], _, back, .body function earlier later isInner, rfl⟩,
              fun _ => rfl⟩, fun part => ?_⟩
            simp only [List.nil_append, Typing.declareFunctions, unseen, found]
        | ok signature =>
            let declared := Typing.declareFunctions
              (environment.defineFunction function.name function.arity signature) back
            refine ⟨fun part => { function with
                body := earlier ++ stmt part :: later, signature := some signature } ::
                  declared.tree,
              declared.verdict.map fun both => (both.1, signature :: both.2),
              ⟨⟨[], _, _, .body { function with signature := some signature } earlier later
                isInner, rfl⟩, fun part => ?_⟩, fun part => ?_⟩
            · exact congrArg (List.cons _) (bare_declareFunctions back _)
            · simp only [List.nil_append, Typing.declareFunctions, unseen, found]
              rfl
  | cons first front induction =>
      intro environment
      cases found : signatureOf environment first with
      | error error =>
          refine ⟨_, .error error, ⟨⟨first :: front, inner, back, isSetting, rfl⟩,
            fun _ => rfl⟩, fun part => ?_⟩
          simp only [List.cons_append, Typing.declareFunctions, found]
      | ok signature =>
          obtain ⟨annotated, verdict, annotates, same⟩ :=
            induction (environment.defineFunction first.name first.arity signature)
          refine ⟨_, verdict.map fun both => (both.1, signature :: both.2),
            annotates.tail (fun _ _ => rfl) (show Function.bare
              { first with signature := some signature } = first.bare from rfl), fun part => ?_⟩
          simp only [List.cons_append, Typing.declareFunctions, found, same]

theorem Typing.length_signatures {functions : List Function} :
    ∀ {environment after : Typing.Environment} {signatures : List Signature},
    (declareFunctions environment functions).verdict = .ok (after, signatures) →
    signatures.length = functions.length := by
  induction functions with
  | nil =>
      intro environment after signatures declared
      cases declared
      rfl
  | cons function rest induction =>
      intro environment after signatures declared
      simp only [declareFunctions] at declared
      split at declared
      · cases declared
      · obtain ⟨⟨last, others⟩, later, same⟩ := map_eq_ok.mp declared
        cases same
        rw [List.length_cons, List.length_cons, induction later]

theorem Function.IsSetting.hinge {environment : Typing.Environment}
    (tight : ¬ loose → environment.Balanced) {setting : Expr → Function}
    (isSetting : Function.IsSetting setting) (signature : Signature) :
    ∀ outcome, (checkBody environment (setting given) signature).verdict = .ok outcome →
    Hinges loose (Annotates Function.IsSetting Function.bare setting) given
      (fun part => checkBody environment (setting part) signature) outcome := by
  intro outcome accepted
  obtain ⟨function, front, back, isInner⟩ := isSetting
  next inner =>
    cases declared : declareParameters (some function.offset) environment.push
        (function.parameters.zip signature.parameters) with
    | error error =>
        simp only [checkBody, declared] at accepted
        cases accepted
    | ok inside =>
        have tightInside (isTight : ¬ loose) : inside.Balanced :=
          declareParameters_balanced (tight isTight).push declared
        simp only [checkBody, declared] at accepted
        refine (Stmt.Hinge.checkBlock isInner.hinge front back inside tightInside accepted).within
          (fun trees => { function with body := trees }) ?_ ?_ ?_
        · rintro annotated ⟨⟨front', inner', back', isInner', rfl⟩, sameBare⟩
          exact ⟨.body function front' back' isInner', fun part => by
            simp only [Function.relabel, sameBare]⟩
        · intro part trees _ checked
          simp only [checkBody, declared, checked]
        · intro part error _ failed
          simp only [checkBody, declared, failed]

theorem Typing.checkBodies_cons (environment : Typing.Environment) (function : Function)
    (functions : List Function) (signature : Signature) (signatures : List Signature) :
    checkBodies environment (function :: functions) (signature :: signatures) =
      (checkBody environment function signature).cons functions fun _ =>
        checkBodies environment functions signatures := by
  simp only [checkBodies, Checked.cons]
  cases (checkBody environment function signature).verdict <;> rfl

theorem Function.IsSetting.hinge_checkBodies {environment : Typing.Environment}
    (tight : ¬ loose → environment.Balanced) {inner : Expr → Function}
    (isSetting : Function.IsSetting inner) (front back : List Function) :
    ∀ signatures : List Signature,
    signatures.length = (front ++ inner given :: back).length →
    (checkBodies environment (front ++ inner given :: back) signatures).verdict = .ok () →
    Hinges loose (Annotates (IsListSetting Function.IsSetting) (List.map Function.bare)
        fun part => front ++ inner part :: back) given
      (fun part => checkBodies environment (front ++ inner part :: back) signatures) () := by
  induction front with
  | nil =>
      intro signatures lengths accepted
      cases signatures with
      | nil => cases lengths
      | cons signature signatures =>
          simp only [List.nil_append, checkBodies_cons] at accepted ⊢
          exact .head (isSetting.hinge tight signature) (fun _ _ => rfl)
            (fun _ => bare_checkBodies environment back signatures) accepted
  | cons first front induction =>
      intro signatures lengths accepted
      cases signatures with
      | nil => cases lengths
      | cons signature signatures =>
          simp only [List.cons_append, checkBodies_cons] at accepted ⊢
          exact .tail (fun _ _ => induction signatures (Nat.succ.inj lengths)) (fun _ _ => rfl)
            (bare_checkBody environment first signature) accepted

/-- An accepted program hinges on what stands at any place of it. -/
theorem Program.IsSetting.hinge (binary : given.isBinary = true) {setting : Expr → Program}
    (isSetting : Program.IsSetting setting) (accepted : (setting given).check.verdict = .ok ()) :
    Hinges (¬ ∀ function ∈ (setting given).functions, function.Balanced)
      (Annotates Program.IsSetting Program.bare setting) given
      (fun part => (setting part).check) () := by
  cases isSetting with
  | global front back functions isInner =>
      simp only [Program.check] at accepted
      split at accepted
      · cases accepted
      next between verdict =>
        split at accepted
        · cases accepted
        next last signatures declared =>
          obtain ⟨_, bodies, main⟩ := bind_eq_ok.mp accepted
          refine (isInner.hinge_checkGlobals binary front back
            (fun _ => Typing.root_global.balanced) verdict).within (fun trees => ⟨trees,
              (checkBodies last (declareFunctions between functions).tree signatures).tree⟩)
            ?_ ?_ ?_
          · rintro annotated ⟨⟨front', inner', back', isInner', rfl⟩, sameBare⟩
            exact ⟨.global front' back' _ isInner', fun part => by
              rw [Program.bare, Program.bare, Program.relabel, Program.relabel, sameBare,
                bare_checkBodies, bare_declareFunctions]⟩
          · intro part trees _ checked
            simp only [Program.check, checked, declared, bodies, Except.bind, main]
          · intro part error _ failed
            simp only [Program.check, failed]
  | function globals front back isInner =>
      simp only [Program.check] at accepted
      split at accepted
      · cases accepted
      next between globalsPass =>
        obtain ⟨annotated, outcome, ⟨⟨front', inner', back', isInner', rfl⟩, sameBare⟩, same⟩ :=
          isInner.declareFunctions front back between
        simp only [same] at accepted
        cases outcome with
        | error error => cases accepted
        | ok both =>
            obtain ⟨last, signatures⟩ := both
            obtain ⟨_, verdict, main⟩ := bind_eq_ok.mp accepted
            have betweenGlobal : between.Global := (globalsRule_of_settles Typing.root_global
              (show (checkGlobals Typing.root globals).Settles false globals between from
                ⟨globalsPass, fun yes => Bool.noConfusion yes⟩)).1
            have lengths := Typing.length_signatures (congrArg Checked.verdict (same given))
            have sameLength := congrArg List.length (sameBare given)
            rw [List.length_map, List.length_map] at sameLength
            refine (isInner'.hinge_checkBodies (fun isTight => ?_) front' back' signatures
              (lengths.trans sameLength.symm) verdict).within
                (fun trees => ⟨(checkGlobals Typing.root globals).tree, trees⟩) ?_ ?_ ?_
            · exact (declareFunctions_global (of_not_not isTight) betweenGlobal
                (congrArg Checked.verdict (same given))).balanced
            · rintro annotated ⟨⟨front'', inner'', back'', isInner'', rfl⟩, sameBare'⟩
              exact ⟨.function _ front'' back'' isInner'', fun part => by
                rw [Program.bare, Program.bare, Program.relabel, Program.relabel,
                  bare_checkGlobals, sameBare', sameBare]⟩
            · intro part trees _ checked
              simp only [Program.check, globalsPass, same, checked, Except.bind, main]
            · intro part error _ failed
              simp only [Program.check, globalsPass, same, failed, Except.bind]

end Programs

theorem Typing.note_conclude {rebuild : Note → Expr} {note : Note} {function : Option Signature}
    {outcome : Except TypingError Ty} {ty : Ty} (keeps : ∀ note, (rebuild note).note = note)
    (passes : (conclude rebuild note function outcome).verdict = .ok ty) :
    (conclude rebuild note function outcome).tree.note.ty = some ty := by
  cases outcome with
  | error error => cases passes
  | ok found =>
      cases passes
      rw [conclude, keeps]

/-- The type that a check finds is noted on the tree. -/
theorem Expr.note_check {environment : Typing.Environment} {expr : Expr} {ty : Ty}
    (passes : (expr.check environment).verdict = .ok ty) :
    (expr.check environment).tree.note.ty = some ty := by
  cases expr with
  | literal note value => exact note_conclude (fun _ => rfl) passes
  | group note inner =>
      simp only [check] at passes ⊢
      split at passes
      · next binary =>
          rw [if_pos binary]
          exact note_conclude (fun _ => rfl) passes
      · cases passes
  | binary note op left right =>
      simp only [check] at passes ⊢
      split at passes
      · cases passes
      · exact note_conclude (fun _ => rfl) passes
  | access note name =>
      simp only [check] at passes ⊢
      split at passes
      · cases passes
      · exact note_conclude (fun _ => rfl) passes
  | element note name index =>
      simp only [check] at passes ⊢
      split at passes
      · cases passes
      · exact note_conclude (fun _ => rfl) passes
  | call note name arguments =>
      simp only [check] at passes ⊢
      split at passes
      · cases passes
      · exact note_conclude (fun _ => rfl) passes
  | list note elements =>
      simp only [check] at passes ⊢
      exact note_conclude (fun _ => rfl) passes

theorem Expr.check_binary {environment : Typing.Environment} {left right : Expr}
    {leftType rightType : Ty} (first : (left.check environment).verdict = .ok leftType)
    (second : (right.check environment).verdict = .ok rightType) (note : Note) (op : BinaryOp) :
    (Expr.binary note op left right).check environment =
      conclude (.binary · op (left.check environment).tree (right.check environment).tree) note
        none (binaryType op leftType rightType note.offset) := by
  simp only [check, first, second, Except.bind]

theorem Typing.binaryType_of_equality {op : BinaryOp} (equality : op = .equal ∨ op = .unequal)
    (left right : Ty) (offset : Nat) :
    binaryType op left right offset =
      if right.accepts left = true then .ok .boolean
      else fault (.invalidOperands op left right) offset := by
  obtain rfl | rfl := equality
  · rfl
  · rfl

/-- The operands of an equality test in an accepted program may be exchanged exactly if the type
noted on the left one accepts the type noted on the right one: then the same types are noted
everywhere, and otherwise the operator does not apply to its operands.  Only in an argument
that the called function has no parameter type for, as no program read from text has one,
expressions are not checked at all. -/
theorem Program.check_exchange {setting : Expr → Program} (isSetting : Program.IsSetting setting)
    {op : BinaryOp} (equality : op = .equal ∨ op = .unequal) {note : Note} {left right : Expr}
    (accepted : (setting (.binary note op left right)).check.verdict = .ok ()) :
    ∃ annotated note' left' right',
      Annotates Program.IsSetting Program.bare setting annotated ∧
      (setting (.binary note op left right)).check.tree =
        annotated (.binary note' op left' right') ∧
      ((∃ leftType rightType, left'.note.ty = some leftType ∧ right'.note.ty = some rightType ∧
          if leftType.accepts rightType = true then
            (setting (.binary note op right left)).check =
              ⟨annotated (.binary note' op right' left'), .ok ()⟩
          else
            (setting (.binary note op right left)).check.verdict =
              fault (.invalidOperands op rightType leftType) note.offset) ∨
        (¬ ∀ function ∈ (setting (.binary note op left right)).functions, function.Balanced) ∧
          (setting (.binary note op right left)).check =
            ⟨annotated (.binary note' op right' left'), .ok ()⟩) := by
  have alike : (Expr.binary note op left right).Alike (.binary note op right left) :=
    ⟨rfl, rfl, rfl⟩
  have itself : (Expr.binary note op left right).Alike (.binary note op left right) :=
    ⟨rfl, rfl, rfl⟩
  cases isSetting.hinge rfl accepted with
  | idle annotated loose annotates same =>
      exact ⟨annotated, note, left, right, annotates, by rw [same _ itself],
        .inr ⟨loose, same _ alike⟩⟩
  | @on annotated environment ty annotates found passes fails =>
      cases leftChecked : (left.check environment).verdict with
      | error error =>
          simp only [Expr.check, leftChecked] at found
          cases found
      | ok leftType =>
          simp only [Expr.check, leftChecked, conclude_verdict] at found
          obtain ⟨rightType, rightChecked, typed⟩ := bind_eq_ok.mp found
          have straight := Expr.check_binary leftChecked rightChecked note op
          have exchanged := Expr.check_binary rightChecked leftChecked note op
          rw [binaryType_of_equality equality] at typed
          split at typed
          next accepts =>
            cases typed
            rw [binaryType_of_equality equality, if_pos accepts] at straight
            rw [binaryType_of_equality equality] at exchanged
            refine ⟨annotated, _, _, _, annotates,
              congrArg Checked.tree (passes _ _ itself straight), .inl ⟨leftType, rightType,
                Expr.note_check leftChecked, Expr.note_check rightChecked, ?_⟩⟩
            split
            · next both =>
                rw [if_pos both] at exchanged
                exact passes _ _ alike exchanged
            · next oneWay =>
                rw [if_neg oneWay] at exchanged
                exact fails _ _ alike (congrArg Checked.verdict exchanged)
          · cases typed

/-- A program that declares local variables and prints what an expression yields. -/
def Program.printing (declarations : List Stmt) (part : Expr) : Program :=
  ⟨[], [⟨"main", [], [], none,
    declarations ++ [.expression (.call (.at 0) "print" [part])], 0, none⟩]⟩

theorem Program.printing_isSetting (declarations : List Stmt) :
    Program.IsSetting (Program.printing declarations) :=
  .function [] [] [] (.body ⟨"main", [], [], none, [], 0, none⟩ declarations []
    (.expression (.argument (.at 0) "print" [] [] .here)))

/-- A variable of a written type that holds a number at first. -/
def Stmt.numeral (name typeName : String) : Stmt :=
  .declaration name (some typeName) (some (.literal (.at 0) (.integer 1)))

/-- Variables of the two types that accept all others may stand on either side. -/
theorem Program.check_exchange_any_comparable :
    let printing := Program.printing [.numeral "x" "Any", .numeral "y" "Comparable"]
    let x := Expr.access (.at 4) "x"
    let y := Expr.access (.at 9) "y"
    Program.IsSetting printing ∧
      (printing (.binary (.at 4) .equal x y)).check.verdict = .ok () ∧
      ∃ annotated note' left' right',
        Annotates Program.IsSetting Program.bare printing annotated ∧
        (printing (.binary (.at 4) .equal x y)).check.tree =
          annotated (.binary note' .equal left' right') ∧
        (printing (.binary (.at 4) .equal y x)).check =
          ⟨annotated (.binary note' .equal right' left'), .ok ()⟩ := by
  intro printing x y
  have isSetting : Program.IsSetting printing := Program.printing_isSetting _
  have accepted : (printing (.binary (.at 4) .equal x y)).check.verdict = .ok () := rfl
  obtain ⟨annotated, note', left', right', annotates, checked, outcome⟩ :=
    Program.check_exchange isSetting (.inl rfl) accepted
  refine ⟨isSetting, accepted, annotated, note', left', right', annotates, checked, ?_⟩
  rcases outcome with ⟨_, _, -, -, exchanged⟩ | ⟨-, exchanged⟩
  · split at exchanged
    · exact exchanged
    · have passes : (printing (.binary (.at 4) .equal y x)).check.verdict = .ok () := rfl
      cases passes.symm.trans exchanged
  · exact exchanged

/-- A number is equal to itself as a value of any type, but not the other way round. -/
theorem Program.check_exchange_any_integer :
    let printing := Program.printing [.numeral "x" "Any"]
    let x := Expr.access (.at 9) "x"
    let one := Expr.literal (.at 4) (.integer 1)
    Program.IsSetting printing ∧
      (printing (.binary (.at 4) .equal one x)).check.verdict = .ok () ∧
      (printing (.binary (.at 4) .equal x one)).check.verdict =
        fault (.invalidOperands .equal .any .integer) 4 :=
  ⟨Program.printing_isSetting _, rfl, rfl⟩

end Procedural
