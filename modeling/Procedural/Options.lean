import Procedural.Text.Numeral

/-!
# Command line options

The command line names one file and some options.  Options with a value take it from
the rest of the same argument or from the next argument.  A value is examined when
the argument after it is: an argument that is unknown is reported before a value that
is wrong, unless the value stands in the same argument as its option.
-/

namespace Procedural

/-- What the tool does with a program. -/
inductive Mode where
  | run
  | check
  | java
  | format
  | tokens
  | outline
  deriving DecidableEq, Repr

/-- When reports are coloured. -/
inductive ColorChoice where
  | automatic
  | always
  | never
  deriving DecidableEq, Repr

/-- The lower case of the characters whose lower case is an ASCII letter: A to Z and the Kelvin
sign.  Other characters stay, which cannot make two texts equal that differ in ASCII letters. -/
def lowerChar (c : Char) : Char :=
  if c = '\u212a' then 'k' else c.toLower

/-- A text with its letters in lower case, as far as that concerns ASCII words. -/
def lowerText (text : String) : String :=
  String.ofList (text.toList.map lowerChar)

namespace Mode

def all : List Mode :=
  [run, check, java, format, tokens, outline]

def name : Mode → String
  | run => "run"
  | check => "check"
  | java => "java"
  | format => "fmt"
  | tokens => "tokens"
  | outline => "ast"

/-- The mode that a word names in any case. -/
def ofText? (text : String) : Option Mode :=
  all.find? fun mode => mode.name == lowerText text

def invalidMessage (text : String) : String :=
  s!"Invalid mode: {text}. Must be one of run, check, java, fmt, tokens, ast"

end Mode

namespace ColorChoice

def all : List ColorChoice :=
  [automatic, always, never]

def name : ColorChoice → String
  | automatic => "auto"
  | always => "always"
  | never => "never"

def ofText? (text : String) : Option ColorChoice :=
  all.find? fun choice => choice.name == lowerText text

def invalidMessage (text : String) : String :=
  s!"Invalid color choice: {text}. Must be 'auto', 'always', or 'never'"

/-- The choice for output that does or does not go to a terminal. -/
def isOn (choice : ColorChoice) (terminal : Bool) : Bool :=
  match choice with
  | automatic => terminal
  | always => true
  | never => false

end ColorChoice

/-- How much the tool logs, by the number of requests for more. -/
def logLevel (verbosity : Nat) : String :=
  match verbosity with
  | 0 => "warn"
  | 1 => "debug"
  | _ => "trace"

/-- Why a command line cannot be followed; requests for help and version are among the reasons. -/
inductive UsageError where
  | unknownArgument
  | invalidValue
  | valueValidation
  | argumentConflict
  | tooManyValues
  | missingRequiredArgument
  | displayHelp
  | displayVersion
  deriving DecidableEq, Repr

/-- What the command line asks for; the file is still to be found. -/
structure Options where
  file : Option String
  mode : Option Mode
  analyze : Bool
  color : Option ColorChoice
  callLimit : Option Nat
  verbosity : Nat
  deriving DecidableEq, Repr

namespace Options

/-- What an empty command line asks for. -/
def initial : Options :=
  ⟨none, none, true, none, none, 0⟩

/-- The greatest limit of nested calls is the greatest number of 64 bits. -/
def maxCallLimit : Nat := 18446744073709551615

/-- The greatest number of requests for more log output. -/
def maxVerbosity : Nat := 255

/-- A number without a sign or with a plus sign. -/
def callLimit? (text : String) : Option Nat :=
  let digits :=
    match text.toList with
    | '+' :: rest => rest
    | cs => cs
  if digits.isEmpty || !digits.all Char.isDigit then none
  else
    let value := Numeral.digitsValue digits
    if value ≤ maxCallLimit then some value else none

/-- What takes a value. -/
inductive Slot where
  | mode
  | color
  | callLimit
  | file
  deriving DecidableEq, Repr

/-- What stands alone. -/
inductive Switch where
  | noAnalyze
  | verbose
  | help
  | version
  deriving DecidableEq, Repr

inductive Flag where
  | slot (slot : Slot)
  | switch (switch : Switch)
  deriving DecidableEq, Repr

def ofLong? : String → Option Flag
  | "mode" => some (.slot .mode)
  | "color" => some (.slot .color)
  | "max-depth" => some (.slot .callLimit)
  | "no-analyze" => some (.switch .noAnalyze)
  | "verbose" => some (.switch .verbose)
  | "help" => some (.switch .help)
  | "version" => some (.switch .version)
  | _ => none

def ofShort? : Char → Option Flag
  | 'm' => some (.slot .mode)
  | 'v' => some (.switch .verbose)
  | 'h' => some (.switch .help)
  | 'V' => some (.switch .version)
  | _ => none

def fill {α : Type} (old : Option α) (read : Option α) : Except UsageError (Option α) :=
  if old.isSome then .error .argumentConflict
  else
    match read with
    | none => .error .valueValidation
    | some value => .ok (some value)

def assign (options : Options) : Slot → String → Except UsageError Options
  | .mode, text => do
      let mode ← fill options.mode (Mode.ofText? text)
      .ok { options with mode }
  | .color, text => do
      let color ← fill options.color (ColorChoice.ofText? text)
      .ok { options with color }
  | .callLimit, text => do
      let callLimit ← fill options.callLimit (callLimit? text)
      .ok { options with callLimit }
  | .file, text =>
      if text.isEmpty then .error .invalidValue else .ok { options with file := some text }

def toggle (options : Options) : Switch → Except UsageError Options
  | .noAnalyze =>
      if options.analyze then .ok { options with analyze := false }
      else .error .argumentConflict
  | .verbose => .ok { options with verbosity := min (options.verbosity + 1) maxVerbosity }
  | .help => .error .displayHelp
  | .version => .error .displayVersion

/-- A slot that was named and whose value is still to come or to be examined. -/
structure Pending where
  slot : Slot
  value : Option String
  deriving DecidableEq, Repr

/-- The state of reading a command line. -/
structure Progress where
  options : Options
  pending : Option Pending
  hasFile : Bool
  onlyFiles : Bool
  deriving DecidableEq, Repr

namespace Progress

def start : Progress :=
  ⟨initial, none, false, false⟩

/-- Examines the value that is pending. -/
def settle (progress : Progress) : Except UsageError Progress :=
  match progress.pending with
  | none => .ok progress
  | some ⟨_, none⟩ => .error .invalidValue
  | some ⟨slot, some text⟩ => do
      let options ← progress.options.assign slot text
      .ok { progress with options, pending := none }

/-- Follows an option, whose value may stand in the same argument. -/
def follow (progress : Progress) (attached : Option String) : Flag → Except UsageError Progress
  | .switch switch => do
      let progress ← progress.settle
      let options ← progress.options.toggle switch
      .ok { progress with options }
  | .slot slot => do
      let progress ← progress.settle
      match attached with
      | none => .ok { progress with pending := some ⟨slot, none⟩ }
      | some text =>
          let options ← progress.options.assign slot text
          .ok { progress with options }

/-- Reads a long option; what follows an equals sign is its value. -/
def long (progress : Progress) (cs : List Char) : Except UsageError Progress :=
  let name := String.ofList (cs.takeWhile (· != '='))
  let attached :=
    match cs.dropWhile (· != '=') with
    | [] => none
    | _ :: rest => some (String.ofList rest)
  match ofLong? name, attached with
  | none, _ => .error .unknownArgument
  | some (.switch _), some _ => .error .tooManyValues
  | some flag, attached => progress.follow attached flag

/-- The value in the rest of a group of short options; an equals sign before it is dropped. -/
def attachedValue? : List Char → Option String
  | [] => none
  | '=' :: rest => some (String.ofList rest)
  | rest => some (String.ofList rest)

/-- Reads a group of short options. -/
def short (progress : Progress) : List Char → Except UsageError Progress
  | [] => .ok progress
  | c :: rest =>
      match ofShort? c with
      | none => .error .unknownArgument
      | some (.slot slot) => progress.follow (attachedValue? rest) (.slot slot)
      | some (.switch switch) => do
          let progress ← progress.follow none (.switch switch)
          progress.short rest

def file (progress : Progress) (text : String) : Except UsageError Progress :=
  if progress.hasFile then .error .unknownArgument
  else do
    let progress ← progress.settle
    .ok { progress with pending := some ⟨.file, some text⟩, hasFile := true }

/-- Reads an argument that is not an option: the value that an option waits for, or a file. -/
def plain (progress : Progress) (text : String) : Except UsageError Progress :=
  match progress.pending with
  | some ⟨slot, none⟩ => .ok { progress with pending := some ⟨slot, some text⟩ }
  | _ => progress.file text

def argument (progress : Progress) (text : String) : Except UsageError Progress :=
  if progress.onlyFiles then progress.file text
  else
    match text.toList with
    | '-' :: '-' :: [] => .ok { progress with onlyFiles := true }
    | '-' :: '-' :: cs => progress.long cs
    | '-' :: c :: cs => progress.short (c :: cs)
    | _ => progress.plain text

def arguments (progress : Progress) : List String → Except UsageError Progress
  | [] => .ok progress
  | text :: rest => do
      let progress ← progress.argument text
      progress.arguments rest

end Progress

end Options

/-- A command line that can be followed. -/
structure Command where
  file : String
  mode : Mode
  analyze : Bool
  color : ColorChoice
  callLimit : Nat
  verbosity : Nat
  deriving DecidableEq, Repr

/-- Reads a command line; what is not asked for is taken from the defaults. -/
def Command.ofArguments (defaultCallLimit : Nat) (arguments : List String) :
    Except UsageError Command := do
  let progress ← Options.Progress.start.arguments arguments
  let settled ← progress.settle
  let options := settled.options
  match options.file with
  | none => .error .missingRequiredArgument
  | some file =>
      .ok ⟨file, options.mode.getD .run, options.analyze, options.color.getD .automatic,
        options.callLimit.getD defaultCallLimit, options.verbosity⟩

end Procedural
