import Procedural.Proofs.Layout.LegibleStmt
import Procedural.Proofs.Layout.Unplaced
import Procedural.Proofs.Reader.Completeness
import Procedural.Proofs.Reader.FromText

/-!
# Canonical layout is read back

A program that was read from a text and is then written in canonical layout is read as
the same program, except for the places of its parts.  Global variables are written
before all functions, so the order among the definitions of each kind is kept.
-/

namespace Procedural

open Grammar Scan

theorem legible_typedName {tokens : List Token} {value : String × String}
    (derived : IsTypedName tokens value) (lexical : ∀ token ∈ tokens, token.IsLexical) :
    Legible IsTypedName id [value.1, ":", value.2] value := by
  obtain @⟨name, colon, typeName, isName, _, isType⟩ := derived
  simp only [List.forall_mem_cons] at lexical
  obtain ⟨lexicalName, _, lexicalType, _⟩ := lexical
  constructor
  · simp only [List.forall_mem_cons]
    exact ⟨⟨_, lexicalName⟩, isWord_fixed (by decide), ⟨_, lexicalType⟩, by simp⟩
  · intro again spells
    obtain ⟨name', _, rfl, sameName, lexicalName', spells⟩ := spells.cons
    obtain ⟨colon', _, rfl, spelled, _, spells⟩ := spells.cons
    obtain ⟨typeName', _, rfl, sameType, lexicalType', spells⟩ := spells.cons
    obtain rfl := spells.nil
    have isName' : name'.kind = name.kind := lexicalName'.kind_eq lexicalName sameName
    have isType' : typeName'.kind = typeName.kind := lexicalType'.kind_eq lexicalType sameType
    refine ⟨_, .mk (isName'.trans isName) spelled (isType'.trans isType), ?_⟩
    rw [sameName, sameType]

theorem Global.keyword_of_isExpr {global : Global} {tokens : List Token}
    (derived : Introduced "=" IsExpr tokens global.value) :
    global.keyword = if global.mutable then "VAR" else "VAL" := by
  obtain ⟨name, typeName, mutable, value, offset, ty⟩ := global
  cases derived with
  | none => cases mutable <;> rfl
  | @some _ _ value _ derived =>
      cases value with
      | list => exact absurd derived not_phrase_list
      | _ => cases mutable <;> rfl

section Globals

variable {name typeName : String}
variable (legibleName : Legible IsTypedName id [name, ":", typeName] (name, typeName))
variable (offset : Nat)

include legibleName

theorem legible_listGlobal {elements : List Expr} (bracket : Nat)
    (legible : Legible (fun tokens values => Items IsExpr tokens values ∧ values ≠ [])
      (List.map Expr.unplaced) (Expr.wordsOfItems elements) elements) :
    Legible IsGlobal Global.unplaced
      (Global.mk name typeName true (some (.list (.at bracket) elements)) offset none).line.words
      ⟨name, typeName, true, some (.list (.at bracket) elements), offset, none⟩ := by
  have written : (Global.mk name typeName true (some (.list (.at bracket) elements)) offset
      none).line.words = "LIST" :: ([name, ":", typeName] ++ "=" :: "[" ::
        (Expr.wordsOfItems elements ++ ["]", ";"])) := by
    simp [Global.line, Global.keyword, wordsOfValue, Expr.words]
  rw [written]
  constructor
  · rw [List.forall_mem_cons, List.forall_mem_append]
    refine ⟨isWord_fixed (by decide), legibleName.areWords, ?_⟩
    simp only [List.forall_mem_cons, List.forall_mem_append]
    exact ⟨isWord_fixed (by decide), isWord_fixed (by decide), legible.areWords,
      isWord_fixed (by decide), isWord_fixed (by decide), by simp⟩
  · intro again spells
    obtain ⟨keyword, _, rfl, spelled, _, spells⟩ := spells.cons
    obtain ⟨nameTokens, _, rfl, spellsName, spells⟩ := spells.append
    obtain ⟨equals, _, rfl, equalsSpelled, _, spells⟩ := spells.cons
    obtain ⟨opening, _, rfl, opened, _, spells⟩ := spells.cons
    obtain ⟨tokens, _, rfl, spellsElements, spells⟩ := spells.append
    obtain ⟨closing, _, rfl, closed, _, spells⟩ := spells.cons
    obtain ⟨semicolon, _, rfl, ended, _, spells⟩ := spells.cons
    obtain rfl := spells.nil
    obtain ⟨named, derivedName, sameName⟩ := legibleName.reads nameTokens spellsName
    obtain rfl : named = (name, typeName) := sameName
    obtain ⟨elements', ⟨derived, nonempty⟩, same⟩ := legible.reads tokens spellsElements
    refine ⟨_, .list spelled derivedName equalsSpelled opened derived nonempty closed ended, ?_⟩
    simp only [Global.unplaced, Option.map_some, Expr.unplaced, Expr.unplacedItems_eq, same,
      Note.unplaced, Note.at]

theorem legible_mutableGlobal {valueTokens : List Token} {value : Option Expr}
    (derivedValue : Introduced "=" IsExpr valueTokens value)
    (lexical : ∀ token ∈ valueTokens, token.IsLexical) :
    Legible IsGlobal Global.unplaced
      (Global.mk name typeName true value offset none).line.words
      ⟨name, typeName, true, value, offset, none⟩ := by
  have legible := legible_value derivedValue lexical
  have keyword : (Global.mk name typeName true value offset none).keyword = "VAR" :=
    Global.keyword_of_isExpr derivedValue
  have written : (Global.mk name typeName true value offset none).line.words =
      "VAR" :: ([name, ":", typeName] ++ (wordsOfValue value ++ [";"])) := by
    simp [Global.line, keyword]
  rw [written]
  constructor
  · rw [List.forall_mem_cons, List.forall_mem_append]
    refine ⟨isWord_fixed (by decide), legibleName.areWords, ?_⟩
    simp only [List.forall_mem_cons, List.forall_mem_append]
    exact ⟨legible.areWords, isWord_fixed (by decide), by simp⟩
  · intro again spells
    obtain ⟨keyword, _, rfl, spelled, _, spells⟩ := spells.cons
    obtain ⟨nameTokens, _, rfl, spellsName, spells⟩ := spells.append
    obtain ⟨valueTokens, _, rfl, spellsValue, spells⟩ := spells.append
    obtain ⟨semicolon, _, rfl, ended, _, spells⟩ := spells.cons
    obtain rfl := spells.nil
    obtain ⟨named, derivedName, sameName⟩ := legibleName.reads nameTokens spellsName
    obtain rfl : named = (name, typeName) := sameName
    obtain ⟨value', derived, same⟩ := legible.reads valueTokens spellsValue
    refine ⟨_, .mutable spelled derivedName derived ended, ?_⟩
    simp only [Global.unplaced, same]

theorem legible_immutableGlobal {tokens : List Token} {value : Expr}
    (derivedValue : IsExpr tokens value) (lexical : ∀ token ∈ tokens, token.IsLexical) :
    Legible IsGlobal Global.unplaced
      (Global.mk name typeName false (some value) offset none).line.words
      ⟨name, typeName, false, some value, offset, none⟩ := by
  have legible := derivedValue.legible lexical
  have keyword : (Global.mk name typeName false (some value) offset none).keyword = "VAL" := by
    cases value with
    | list => exact absurd derivedValue not_phrase_list
    | _ => rfl
  have written : (Global.mk name typeName false (some value) offset none).line.words =
      "VAL" :: ([name, ":", typeName] ++ "=" :: (value.words ++ [";"])) := by
    simp [Global.line, keyword, wordsOfValue]
  rw [written]
  constructor
  · rw [List.forall_mem_cons, List.forall_mem_append]
    refine ⟨isWord_fixed (by decide), legibleName.areWords, ?_⟩
    simp only [List.forall_mem_cons, List.forall_mem_append]
    exact ⟨isWord_fixed (by decide), legible.areWords, isWord_fixed (by decide), by simp⟩
  · intro again spells
    obtain ⟨keyword, _, rfl, spelled, _, spells⟩ := spells.cons
    obtain ⟨nameTokens, _, rfl, spellsName, spells⟩ := spells.append
    obtain ⟨equals, _, rfl, equalsSpelled, _, spells⟩ := spells.cons
    obtain ⟨tokens, _, rfl, spellsValue, spells⟩ := spells.append
    obtain ⟨semicolon, _, rfl, ended, _, spells⟩ := spells.cons
    obtain rfl := spells.nil
    obtain ⟨named, derivedName, sameName⟩ := legibleName.reads nameTokens spellsName
    obtain rfl : named = (name, typeName) := sameName
    obtain ⟨value', derived, same⟩ := legible.reads tokens spellsValue
    refine ⟨_, .immutable spelled derivedName equalsSpelled derived ended, ?_⟩
    simp only [Global.unplaced, Option.map_some, same]

end Globals

theorem Grammar.IsGlobal.legible {tokens : List Token} {item : Global}
    (derived : IsGlobal tokens item) (lexical : ∀ token ∈ tokens, token.IsLexical) :
    Legible IsGlobal Global.unplaced item.line.words item := by
  cases derived with
  | list _ derivedName _ _ derivedElements nonempty =>
      simp only [List.forall_mem_cons, List.forall_mem_append] at lexical
      obtain ⟨_, lexicalName, _, _, lexicalElements, _⟩ := lexical
      obtain ⟨parts, all, joined, rfl⟩ := derivedElements
      apply legible_listGlobal (legible_typedName derivedName lexicalName)
      apply legible_expressions nonempty
      intro expr member
      obtain ⟨part, memberPart, rfl⟩ := List.mem_map.mp member
      apply (all part memberPart).legible
      intro token inPart
      exact lexicalElements token (joined.subset part.1 (List.mem_map_of_mem memberPart) inPart)
  | mutable _ derivedName derivedValue =>
      simp only [List.forall_mem_cons, List.forall_mem_append] at lexical
      obtain ⟨_, lexicalName, lexicalValue, _⟩ := lexical
      exact legible_mutableGlobal (legible_typedName derivedName lexicalName) _ derivedValue
        lexicalValue
  | immutable _ derivedName _ derivedValue =>
      simp only [List.forall_mem_cons, List.forall_mem_append] at lexical
      obtain ⟨_, lexicalName, _, lexicalValue, _⟩ := lexical
      exact legible_immutableGlobal (legible_typedName derivedName lexicalName) _ derivedValue
        lexicalValue

theorem wordsOfParameters_cons (first : String × String) (rest : List (String × String)) :
    wordsOfParameters (first :: rest) =
      [first.1, ":", first.2] ++ rest.flatMap fun value => "," :: [value.1, ":", value.2] := by
  induction rest generalizing first with
  | nil => rfl
  | cons second rest induction => simp [wordsOfParameters, induction]

theorem startsWithNone_parameters {tokens : List Token} {parameters : List (String × String)}
    (derived : Items IsTypedName tokens parameters)
    (lexical : ∀ token ∈ tokens, token.IsLexical) : StartsWithNone [")"] tokens := by
  obtain ⟨parts, all, joined, _⟩ := derived
  match parts, joined with
  | [], .nil => simp [StartsWithNone]
  | first :: parts, .cons _ =>
      obtain ⟨firstTokens, value⟩ := first
      have derivedFirst := all (firstTokens, value) (by simp)
      cases derivedFirst with
      | mk isName =>
          have different := (lexical _ (by simp)).ne_closing isName
          simpa [StartsWithNone] using different

theorem legible_parameters {tokens : List Token} {parameters : List (String × String)}
    (derived : Items IsTypedName tokens parameters)
    (lexical : ∀ token ∈ tokens, token.IsLexical) :
    Legible (fun tokens values => Items IsTypedName tokens values ∧ StartsWithNone [")"] tokens)
      id (wordsOfParameters parameters) parameters := by
  obtain ⟨parts, all, joined, rfl⟩ := derived
  have legible : ∀ value ∈ parts.map Prod.snd,
      Legible IsTypedName id [value.1, ":", value.2] value := by
    intro value member
    obtain ⟨part, memberPart, rfl⟩ := List.mem_map.mp member
    apply legible_typedName (all part memberPart)
    intro token inPart
    exact lexical token (joined.subset part.1 (List.mem_map_of_mem memberPart) inPart)
  generalize parts.map Prod.snd = parameters at legible
  cases parameters with
  | nil =>
      refine ⟨by simp [wordsOfParameters], ?_⟩
      intro again spells
      obtain rfl := spells.nil
      exact ⟨[], ⟨⟨[], by simp, .nil, rfl⟩, by simp [StartsWithNone]⟩, rfl⟩
  | cons first rest =>
      rw [wordsOfParameters_cons]
      have items := Legible.items (fun value : String × String => [value.1, ":", value.2]) legible
      refine ⟨items.areWords, ?_⟩
      intro again spells
      obtain ⟨values, ⟨derived, _⟩, same⟩ := items.reads again spells
      rw [List.map_id, List.map_id] at same
      exact ⟨values, ⟨derived, startsWithNone_parameters derived spells.lexical⟩, same⟩

theorem Grammar.IsFunction.legible {tokens : List Token} {item : Function}
    (derived : IsFunction tokens item) (lexical : ∀ token ∈ tokens, token.IsLexical) :
    Legible IsFunction Function.unplaced (wordsOfLines item.lines) item := by
  obtain @⟨keyword, name, opening, closing, start, finish, parameterTokens, typeTokens, bodyTokens,
    parameters, returnType, body, _, isIdentifier, _, derivedParameters, _, _, derivedType, _,
    derivedBody, _⟩ := derived
  simp only [List.forall_mem_cons, List.forall_mem_append] at lexical
  obtain ⟨_, lexicalName, _, lexicalParameters, _, lexicalType, _, lexicalBody, _⟩ := lexical
  have legibleParameters := legible_parameters derivedParameters lexicalParameters
  have legibleType := legible_type derivedType lexicalType
  have legibleBody := derivedBody.legible (by decide) lexicalBody 1
  have zipped : (parameters.map Prod.fst).zip (parameters.map Prod.snd) = parameters := by
    simp [List.zip_map']
  have written : wordsOfLines (Function.lines ⟨name.literal, parameters.map Prod.fst,
      parameters.map Prod.snd, returnType, body, keyword.offset, none⟩) =
        "FUN" :: name.literal :: "(" :: (wordsOfParameters parameters ++ ")" ::
          (wordsOfType returnType ++ "DO" :: (wordsOfLines (Stmt.linesOfBlock 1 body) ++
            ["END"]))) := by
    simp [Function.lines, zipped]
  rw [written]
  constructor
  · simp only [List.forall_mem_cons, List.forall_mem_append]
    exact ⟨isWord_fixed (by decide), ⟨_, lexicalName⟩, isWord_fixed (by decide),
      legibleParameters.areWords, isWord_fixed (by decide), legibleType.areWords,
      isWord_fixed (by decide), legibleBody.areWords, isWord_fixed (by decide), by simp⟩
  · intro again spells
    obtain ⟨keyword', _, rfl, spelled, _, spells⟩ := spells.cons
    obtain ⟨name', _, rfl, sameName, lexicalName', spells⟩ := spells.cons
    obtain ⟨opening', _, rfl, opened, _, spells⟩ := spells.cons
    obtain ⟨parameterTokens', _, rfl, spellsParameters, spells⟩ := spells.append
    obtain ⟨closing', _, rfl, closed, _, spells⟩ := spells.cons
    obtain ⟨typeTokens', _, rfl, spellsType, spells⟩ := spells.append
    obtain ⟨start', _, rfl, started, _, spells⟩ := spells.cons
    obtain ⟨bodyTokens', _, rfl, spellsBody, spells⟩ := spells.append
    obtain ⟨finish', _, rfl, finished, _, spells⟩ := spells.cons
    obtain rfl := spells.nil
    have sameKind : name'.kind = name.kind := lexicalName'.kind_eq lexicalName sameName
    obtain ⟨parameters', ⟨derivedParameters', starts⟩, sameParameters⟩ :=
      legibleParameters.reads parameterTokens' spellsParameters
    obtain rfl : parameters' = parameters := sameParameters
    obtain ⟨returnType', derivedType', sameType⟩ := legibleType.reads typeTokens' spellsType
    obtain rfl : returnType' = returnType := sameType
    obtain ⟨body', derivedBody', sameBody⟩ := legibleBody.reads bodyTokens' spellsBody
    refine ⟨_, .mk spelled (sameKind.trans isIdentifier) opened derivedParameters' starts closed
      derivedType' started derivedBody' finished, ?_⟩
    simp only [Function.unplaced, sameName, sameBody]

/-- All definitions of a program that was read from tokens are legible. -/
theorem Grammar.IsProgram.legible {tokens : List Token} {program : Program}
    (derived : IsProgram tokens program) (lexical : ∀ token ∈ tokens, token.IsLexical) :
    (∀ item ∈ program.globals, Legible IsGlobal Global.unplaced item.line.words item) ∧
      ∀ item ∈ program.functions,
        Legible IsFunction Function.unplaced (wordsOfLines item.lines) item := by
  induction derived with
  | nil => simp
  | global derived _ induction =>
      obtain ⟨lexicalFirst, lexicalLater⟩ := List.forall_mem_append.mp lexical
      obtain ⟨globals, functions⟩ := induction lexicalLater
      exact ⟨List.forall_mem_cons.mpr ⟨derived.legible lexicalFirst, globals⟩, functions⟩
  | function derived _ induction =>
      obtain ⟨lexicalFirst, lexicalLater⟩ := List.forall_mem_append.mp lexical
      obtain ⟨globals, functions⟩ := induction lexicalLater
      exact ⟨globals, List.forall_mem_cons.mpr ⟨derived.legible lexicalFirst, functions⟩⟩

theorem isProgram_of_functions {functions : List Function}
    (legible : ∀ item ∈ functions,
      Legible IsFunction Function.unplaced (wordsOfLines item.lines) item) :
    ∀ tokens, Spells tokens (functions.flatMap fun item => wordsOfLines item.lines) →
      ∃ again, IsProgram tokens again ∧ again.unplaced = (Program.mk [] functions).unplaced := by
  induction functions with
  | nil =>
      intro tokens spells
      obtain rfl := spells.nil
      exact ⟨⟨[], []⟩, .nil, rfl⟩
  | cons item functions induction =>
      intro tokens spells
      obtain ⟨legibleFirst, legibleLater⟩ := List.forall_mem_cons.mp legible
      obtain ⟨first, later, rfl, spellsFirst, spellsLater⟩ := spells.append
      obtain ⟨item', derived, same⟩ := legibleFirst.reads first spellsFirst
      obtain ⟨again, derivedLater, sameLater⟩ := induction legibleLater later spellsLater
      refine ⟨_, .function derived derivedLater, ?_⟩
      simp only [Program.unplaced, Program.mk.injEq, List.map_cons, same] at sameLater ⊢
      exact ⟨sameLater.1, by rw [sameLater.2]⟩

/-- Legible definitions, with the global variables first, are a program. -/
theorem isProgram_of_definitions {globals : List Global} {functions : List Function}
    (legible : ∀ item ∈ globals, Legible IsGlobal Global.unplaced item.line.words item)
    (legibleFunctions : ∀ item ∈ functions,
      Legible IsFunction Function.unplaced (wordsOfLines item.lines) item) :
    ∀ tokens, Spells tokens (globals.flatMap (fun item => item.line.words) ++
        functions.flatMap fun item => wordsOfLines item.lines) →
      ∃ again, IsProgram tokens again ∧
        again.unplaced = (Program.mk globals functions).unplaced := by
  induction globals with
  | nil => exact isProgram_of_functions legibleFunctions
  | cons item globals induction =>
      intro tokens spells
      obtain ⟨legibleFirst, legibleLater⟩ := List.forall_mem_cons.mp legible
      rw [List.flatMap_cons, List.append_assoc] at spells
      obtain ⟨first, later, rfl, spellsFirst, spellsLater⟩ := spells.append
      obtain ⟨item', derived, same⟩ := legibleFirst.reads first spellsFirst
      obtain ⟨again, derivedLater, sameLater⟩ := induction legibleLater later spellsLater
      refine ⟨_, .global derived derivedLater, ?_⟩
      simp only [Program.unplaced, Program.mk.injEq, List.map_cons, same] at sameLater ⊢
      exact ⟨by rw [sameLater.1], sameLater.2⟩

theorem Program.wordsOfLines_lines (program : Program) :
    wordsOfLines program.lines = program.globals.flatMap (fun item => item.line.words) ++
      program.functions.flatMap fun item => wordsOfLines item.lines := by
  have further (functions : List Function) :
      wordsOfLines (Function.linesOfFurther functions) =
        functions.flatMap fun item => wordsOfLines item.lines := by
    induction functions with
    | nil => rfl
    | cons first rest induction =>
        have blank : Line.blank.words = [] := rfl
        rw [Function.linesOfFurther] at induction ⊢
        simp [blank, induction]
  have globals (globals : List Global) :
      wordsOfLines (globals.map Global.line) = globals.flatMap fun item => item.line.words := by
    simp [wordsOfLines, List.flatMap_map]
  obtain ⟨items, functions⟩ := program
  rw [Program.lines, wordsOfLines_append, globals]
  cases items with
  | nil =>
      cases functions with
      | nil => rfl
      | cons first rest => simp [further]
  | cons first rest => simp [further]

/-- The canonical layout of a program that was read from a text is read as the same program, up
to offsets. -/
theorem Program.exists_ofText_format {text : String} {program : Program}
    (read : Program.ofText text = .ok program) :
    ∃ again, Program.ofText program.format = .ok again ∧ again.unplaced = program.unplaced := by
  obtain ⟨_, derived, lexical⟩ := Program.isProgram_of_ofText read
  obtain ⟨legible, legibleFunctions⟩ := derived.legible lexical
  have areWords : ∀ line ∈ program.lines, ∀ word ∈ line.words, IsWord word := by
    intro line memberLine word memberWord
    have member : word ∈ wordsOfLines program.lines :=
      List.mem_flatMap.mpr ⟨line, memberLine, memberWord⟩
    rw [Program.wordsOfLines_lines] at member
    rcases List.mem_append.mp member with inGlobals | inFunctions
    · obtain ⟨item, memberItem, inItem⟩ := List.mem_flatMap.mp inGlobals
      exact (legible item memberItem).areWords word inItem
    · obtain ⟨item, memberItem, inItem⟩ := List.mem_flatMap.mp inFunctions
      exact (legibleFunctions item memberItem).areWords word inItem
  have spaced := Line.spaced_textList areWords
  obtain ⟨tokens, stop, scanned, literals, lexicalTokens⟩ :=
    Cursor.tokensWithin_of_spaced spaced program.format.toList.length 0 (Nat.le_refl _)
  have spells : Spells tokens (wordsOfLines program.lines) := ⟨literals, lexicalTokens⟩
  rw [Program.wordsOfLines_lines] at spells
  obtain ⟨again, derivedAgain, same⟩ :=
    isProgram_of_definitions legible legibleFunctions tokens spells
  have tokenized : tokenize program.format = .ok tokens := congrArg Prod.fst scanned
  have readTokens := Program.ofTokens_of_isProgram derivedAgain
  exact ⟨again, Program.ofText_eq_ok.mpr ⟨tokens, tokenized, readTokens⟩, same⟩

/-- The canonical layout of a program that was read from a text is read as the same program up
to offsets, so writing it again gives the same text. -/
theorem ofText_format {text : String} {program : Program}
    (read : Program.ofText text = .ok program) :
    ∃ again, Program.ofText program.format = .ok again ∧
      again.unplaced = program.unplaced ∧ again.format = program.format := by
  obtain ⟨again, readAgain, same⟩ := Program.exists_ofText_format read
  refine ⟨again, readAgain, same, ?_⟩
  rw [← Program.format_unplaced, same]
  exact Program.format_unplaced program

/-- A negative decimal keeps its last zero, and an empty alternative disappears. -/
theorem ofText_format_branch :
    ∃ program, Program.ofText "FUN f ( ) DO IF TRUE DO x = -0.50 ; ELSE END END" = .ok program ∧
      program.format = "FUN f ( ) DO\n    IF TRUE DO\n        x = -0.50 ;\n    END\nEND\n" ∧
      ∃ again, Program.ofText program.format = .ok again ∧
        again.unplaced = program.unplaced ∧ again.format = program.format := by
  have formatted : ((Program.ofText "FUN f ( ) DO IF TRUE DO x = -0.50 ; ELSE END END").map
      Program.format).toOption =
        some "FUN f ( ) DO\n    IF TRUE DO\n        x = -0.50 ;\n    END\nEND\n" := by
    decide +kernel
  cases read : Program.ofText "FUN f ( ) DO IF TRUE DO x = -0.50 ; ELSE END END" with
  | error problem =>
      rw [read] at formatted
      cases formatted
  | ok program =>
      rw [read] at formatted
      exact ⟨program, rfl, Option.some.inj formatted, ofText_format read⟩

end Procedural
