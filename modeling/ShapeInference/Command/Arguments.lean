import ShapeInference.Command.Request

/-!
# Command-line arguments

Both commands take their schemas with `-i`, any number at a time and any number of times, and
optionally a configuration and a filter.

## Implementation notes

An option waits for its values until the next option or the end, unless one is attached to it, and
only then its faults are reported: first missing values, then repetition, then a bad value. Words
that no option waits for, options that do not exist, and values attached to flags that take none
are reported at once.
-/

namespace ShapeInference.Command

/-- Why arguments are no request. -/
inductive UsageFault where
  /-- There are no arguments. -/
  | noArguments
  /-- Help was asked for. -/
  | help
  /-- The version was asked for. -/
  | version
  | unknownCommand
  | unknownArgument
  /-- A value is attached to a flag that takes none. -/
  | unneededValue
  | invalidValue
  | missingInput
  | repeatedOption
deriving DecidableEq, Repr

/-- The options. -/
inductive OptionName where
  | config
  | filter
  | input
  | format
  | out
deriving DecidableEq, Repr

namespace OptionName

/-- The long spelling of an option. -/
def long : OptionName → String
  | config => "config"
  | filter => "jq-expr"
  | input => "input"
  | format => "format"
  | out => "out"

/-- The short spelling of an option, if it has one. -/
def short? : OptionName → Option Char
  | input => some 'i'
  | out => some 'o'
  | _ => none

/-- The options of both commands. -/
def shared : List OptionName := [config, filter, input]

/-- All options. -/
def all : List OptionName := shared ++ [format, out]

end OptionName

/-- What one argument is by its form. -/
inductive Word where
  /-- Two hyphens, which end the options. -/
  | terminator
  /-- An option by its long spelling, perhaps with a value behind an equals sign. -/
  | long (name : String) (value : Option String)
  /-- Options by their short spellings, the last perhaps with a value. -/
  | short (letters : List Char)
  /-- Anything else. -/
  | plain (text : String)
deriving DecidableEq, Repr

namespace Word

/-- The form of an argument. A lone hyphen is no option. -/
def ofArgument (argument : String) : Word :=
  match argument.toList with
  | ['-', '-'] => terminator
  | '-' :: '-' :: rest =>
    let name := rest.takeWhile (· ≠ '=')
    match rest.drop name.length with
    | _ :: value => long (String.ofList name) (some (String.ofList value))
    | [] => long (String.ofList name) none
  | ['-'] => plain argument
  | '-' :: letters => short letters
  | _ => plain argument

end Word

/-- An option that waits for values, with those it has. -/
structure Pending where
  name : OptionName
  values : List String
deriving DecidableEq, Repr

/-- The values read so far. `waiting` says whether the pending option takes the next word. -/
structure Reading where
  given : List (OptionName × List String)
  pending : Option Pending
  waiting : Bool
deriving DecidableEq, Repr

namespace Reading

/-- Nothing read yet. -/
def empty : Reading := ⟨[], none, false⟩

/-- The values of an option in order. -/
def valuesOf (reading : Reading) (name : OptionName) : List String :=
  (reading.given.filter (·.1 = name)).flatMap Prod.snd

/-- Whether a value is one that an option takes. -/
def accepts : OptionName → String → Bool
  | .format, value => value == "json" || value == "type"
  | .config, value => value != ""
  | .out, value => value != ""
  | _, _ => true

/-- Takes in the pending option. -/
def settle (reading : Reading) : Except UsageFault Reading :=
  match reading.pending with
  | none => .ok reading
  | some ⟨name, values⟩ =>
    if values.isEmpty then .error .invalidValue
    else if name ≠ .input ∧ (reading.given.any fun g => g.1 == name) then .error .repeatedOption
    else if values.all (accepts name) then
      .ok ⟨reading.given ++ [(name, values)], none, false⟩
    else .error .invalidValue

/-- Starts an option. A value attached to it is its only one. -/
def start (reading : Reading) (name : OptionName) (value : Option String) :
    Except UsageFault Reading := do
  let reading ← reading.settle
  match value with
  | some value => settle { reading with pending := some ⟨name, [value]⟩ }
  | none => return { reading with pending := some ⟨name, []⟩, waiting := true }

/-- Asks for help. -/
def askHelp (reading : Reading) : Except UsageFault Reading := do
  let _ ← reading.settle
  throw .help

/-- Gives a word to the pending option. Only `-i` waits for more. -/
def give (reading : Reading) (word : String) : Except UsageFault Reading :=
  match reading.waiting, reading.pending with
  | true, some ⟨name, values⟩ =>
    .ok { reading with pending := some ⟨name, values ++ [word]⟩, waiting := name == .input }
  | _, _ => .error .unknownArgument

/-- Reads one argument of a command with the given options. -/
def step (options : List OptionName) (reading : Reading) (argument : String) :
    Except UsageFault Reading :=
  match Word.ofArgument argument with
  | .long name value =>
    match options.find? (·.long == name) with
    | some option => reading.start option value
    | none =>
      if name ≠ "help" then .error .unknownArgument
      else if value.isSome then .error .unneededValue
      else reading.askHelp
  | .short (letter :: rest) =>
    match options.find? (·.short? == some letter) with
    | some option =>
      let value := match rest with
        | [] => none
        | '=' :: value => some (String.ofList value)
        | value => some (String.ofList value)
      reading.start option value
    | none => if letter = 'h' then reading.askHelp else .error .unknownArgument
  | .plain word => reading.give word
  | .short [] => .error .unknownArgument
  | .terminator => .error .unknownArgument

/-- Reads the arguments of a command. Behind two hyphens no word is expected. -/
def arguments (options : List OptionName) : Reading → List String → Except UsageFault Reading
  | reading, [] => reading.settle
  | reading, argument :: rest =>
    if Word.ofArgument argument = .terminator then
      if rest.isEmpty then reading.settle else .error .unknownArgument
    else do arguments options (← reading.step options argument) rest

/-- The sources among the values. -/
def sources (reading : Reading) : Except UsageFault Sources :=
  match reading.valuesOf .input with
  | [] => .error .missingInput
  | inputs => .ok ⟨(reading.valuesOf .config).head?, (reading.valuesOf .filter).head?, inputs⟩

end Reading

namespace Request

/-- The request of a command with its own arguments, if there is such a command. -/
def ofCommand? (command : String) (rest : List String) : Option (Except UsageFault Request) :=
  match command with
  | "infer" => some do
    let reading ← Reading.arguments OptionName.all .empty rest
    let format := if reading.valuesOf .format = ["type"] then .type else .json
    return .infer (← reading.sources) format (reading.valuesOf .out).head?
  | "check" => some do
    let reading ← Reading.arguments OptionName.shared .empty rest
    return .check (← reading.sources)
  | _ => none

/-- What help is asked for about: the commands and help itself. -/
def isTopic (word : String) : Bool :=
  word == "infer" || word == "check" || word == "help"

/-- The request that arguments make. -/
def ofArguments : List String → Except UsageFault Request
  | [] => .error .noArguments
  | argument :: rest =>
    match Word.ofArgument argument with
    | .long name value =>
      if name ≠ "help" ∧ name ≠ "version" then .error .unknownArgument
      else if value.isSome then .error .unneededValue
      else .error (if name = "help" then .help else .version)
    | .short ('h' :: _) => .error .help
    | .short ('V' :: _) => .error .version
    | .short _ => .error .unknownArgument
    | .terminator =>
      match rest with
      | [] => .error .noArguments
      | word :: _ => if isTopic word then .error .unknownArgument else .error .unknownCommand
    | .plain "help" =>
      match rest with
      | [] => .error .help
      | [topic] => if isTopic topic then .error .help else .error .unknownCommand
      | _ => .error .unknownCommand
    | .plain command => (ofCommand? command rest).getD (.error .unknownCommand)

end Request

end ShapeInference.Command
